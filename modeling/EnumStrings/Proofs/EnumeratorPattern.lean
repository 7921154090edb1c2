import Mathlib.Data.List.TakeWhile
import EnumStrings.Pattern
import EnumStrings.Proofs.DeclarationLine
import EnumStrings.Proofs.EnumeratorReading

/-!
# The pattern of enumerators

The reader of enumerators goes through a text once, while a pattern is matched by trial. Both find the same name in the
same place (`enumerator?_eq_captures?`): every repetition in the pattern may be cut off where it ends by itself, since
what follows has no match in front of its end (`Pattern.run_star_one`).
-/

namespace EnumStrings

namespace Pattern

/-! ## The end of a line -/

section Ends

variable {whole : Text} {rest : Rest}

/-- The end of a line: white space, perhaps with a comment behind it. -/
def lineEnd (s : Text) : Option Captures := if isTrailing s then some [] else none

/-- Nothing but a slash or white space starts the end of a line. -/
theorem lineEnd_cons {c : Char} (hb : isBlank c = false) (hc : c ≠ '/') (s : Text) : lineEnd (c :: s) = none := by
  have hskip : skipBlanks (c :: s) = c :: s := skipBlanks_eq_self (forall_head?_cons hb s)
  simp [lineEnd, isTrailing, hskip, isComment, hc]

/-- White space in front of the end of a line makes no difference. -/
theorem lineEnd_skipBlanks (s : Text) : lineEnd (skipBlanks s) = lineEnd s := by
  rw [lineEnd, lineEnd, isTrailing, isTrailing, skipBlanks_skipBlanks]

/-- White space is taken as a whole, if what follows may stand behind it as well as in front of it. -/
theorem run_blanks (h : ∀ s, rest (skipBlanks s) = none → rest s = none) (s : Text) :
    blanks.run whole rest s = rest (skipBlanks s) := by
  refine run_star_one (fun c s hc hs => h _ ?_) s
  rwa [skipBlanks_cons hc]

/-- White space is taken as a whole, if what follows does not start with white space. -/
theorem run_blanks_of_fails (h : rest.Fails isBlank) (s : Text) : blanks.run whole rest s = rest (skipBlanks s) :=
  run_star_one_of_fails h s

theorem run_someBlanks (h : rest.Fails isBlank) (s : Text) :
    someBlanks.run whole rest s = (skipSomeBlanks? s).bind rest := by
  have hskip : skipSome? isBlank s = skipSomeBlanks? s := by cases s <;> rfl
  rw [someBlanks, run_plus_one h, hskip]

/-- All but line feeds are taken up to the end. -/
theorem run_line (s : Text) :
    (star (one (· != '\n'))).run whole atEnd s = if s.contains '\n' then none else some [] := by
  rw [run_star_one_of_fails fun _ _ _ => rfl]
  by_cases h : '\n' ∈ s
  · obtain ⟨a, b, rfl, ha⟩ := List.eq_append_cons_of_mem h
    obtain ⟨-, hdrop⟩ := span_append_of_head ha (rfl : ('\n' :: b).head? = some '\n')
    rw [hdrop, if_pos (by simp)]
    rfl
  · have hdrop : s.dropWhile (· != '\n') = [] := List.dropWhile_eq_nil_iff.mpr (forall_ne_of_notMem h)
    rw [hdrop, if_neg (by simpa using h)]
    rfl

/-- A comment reaches to the end of its line. -/
theorem run_comment (s : Text) : (opt (literal "//".toList ++ star (one (· != '\n')))).run whole atEnd s =
    if s.isEmpty || isComment s then some [] else none := by
  rw [run_opt, run_append, run_literal]
  unfold isComment
  split
  · rename_i s
    rw [show keyword? "//".toList ('/' :: '/' :: s) = some s from keyword?_append _ s, Option.bind_some, run_line]
    cases s.contains '\n' <;> rfl
  · rename_i hne
    rw [keyword?_eq_none hne, Option.bind_none, Option.none_or, Bool.or_false]
    rfl

theorem run_trailing : trailing.run whole atEnd = lineEnd := by
  funext s
  rw [trailing, run_append, run_blanks_of_fails]
  · rw [run_comment, lineEnd, isTrailing]
  · intro c s hc
    have hslash : c ≠ '/' := by rintro rfl; exact absurd hc (by decide)
    rw [run_comment]
    simp [isComment, hslash]

/-- The end of a line, perhaps with `d` in front of it. -/
def endAfter (d : Char) (s : Text) : Option Captures := ((keyword? [d] s).bind lineEnd).or (lineEnd s)

theorem run_endAfter (d : Char) : (opt (literal [d])).run whole lineEnd = endAfter d := by
  funext s
  rw [run_opt, run_literal, endAfter]

/-- Only white space, a slash or `d` itself starts what `d` may start. -/
theorem endAfter_cons {c d : Char} (hb : isBlank c = false) (hd : c ≠ d) (hslash : c ≠ '/') (s : Text) :
    endAfter d (c :: s) = none := by
  rw [endAfter, keyword?, if_neg hd.symm, lineEnd_cons hb hslash]
  rfl

theorem endAfter_self {d : Char} (hb : isBlank d = false) (hslash : d ≠ '/') (s : Text) :
    endAfter d (d :: s) = lineEnd s := by
  have hd : keyword? [d] (d :: s) = some s := keyword?_append [d] s
  rw [endAfter, hd, lineEnd_cons hb hslash, Option.bind_some, Option.or_none]

theorem endAfter_of_ne {d : Char} {s : Text} (h : ∀ t, s ≠ d :: t) : endAfter d s = lineEnd s := by
  rw [endAfter, keyword?_eq_none h, Option.bind_none, Option.none_or]

/-- White space may stand in front of the end of a line. -/
theorem endAfter_skipBlanks {d : Char} (hd : isBlank d = false) {s : Text} (h : endAfter d (skipBlanks s) = none) :
    endAfter d s = none := by
  cases s with
  | nil => exact h
  | cons c s =>
    by_cases hc : isBlank c = true
    · have hne : ∀ t, c :: s ≠ d :: t := by
        rintro t heq
        rw [(List.cons.inj heq).1, hd] at hc
        cases hc
      have hend := (Option.or_eq_none_iff.mp h).2
      rwa [endAfter_of_ne hne, ← lineEnd_skipBlanks]
    · rwa [skipBlanks_eq_self (forall_head?_cons (by simpa using hc) s)] at h

theorem run_blanks_endAfter {d : Char} (hd : isBlank d = false) :
    blanks.run whole (endAfter d) = fun s => endAfter d (skipBlanks s) := by
  funext s
  exact run_blanks (fun _ => endAfter_skipBlanks hd) s

end Ends

/-! ## Enumerators -/

section Enumerators

variable {whole : Text} {rest : Rest}

/-- What follows the digits of a literal: letters for its type, white space, and what follows the initialiser. -/
def afterDigits (s : Text) : Option Captures := endAfter ',' (skipBlanks (s.dropWhile isSuffix))

/-- No digit starts what follows the digits of a literal. -/
theorem endsDigits_of_afterDigits {s : Text} (h : afterDigits s ≠ none) : EndsDigits s := by
  cases s with
  | nil => simp [EndsDigits]
  | cons c s =>
    refine forall_head?_cons ?_ s
    cases hsuffix : isSuffix c with
    | true => exact not_digit_of_isSuffix hsuffix
    | false =>
      cases hb : isBlank c with
      | true => exact (not_literal_of_isBlank c hb).1
      | false =>
        by_cases hend : c = ',' ∨ c = '/'
        · rcases hend with rfl | rfl <;> decide
        · obtain ⟨hcomma, hslash⟩ := not_or.mp hend
          rw [afterDigits, List.dropWhile_cons_of_neg (by simp [hsuffix]),
            skipBlanks_eq_self (forall_head?_cons hb s)] at h
          exact absurd (endAfter_cons hb hcomma hslash s) h

theorem afterDigits_fails {p : Char → Bool}
    (h : ∀ c, p c = true → ¬ (isHexDigit c = false ∧ isDecimalDigit c = false ∧ c ∉ baseLetters)) :
    Rest.Fails afterDigits p := by
  intro c s hc
  by_contra hsome
  exact h c hc (endsDigits_of_afterDigits hsome c rfl)

theorem run_afterDigits : (star (one isSuffix)).run whole (blanks.run whole (endAfter ',')) = afterDigits := by
  funext s
  rw [run_blanks_endAfter (by decide), run_star_one_of_fails]
  · rfl
  · intro c s hc
    have hb : isBlank c = false := by
      cases hb : isBlank c with
      | false => rfl
      | true => rw [(not_literal_of_isBlank c hb).2] at hc; cases hc
    have hend : endAfter ',' (c :: s) = none := endAfter_cons hb (by rintro rfl; cases hc) (by rintro rfl; cases hc) s
    rwa [← skipBlanks_eq_self (forall_head?_cons hb s)] at hend

/-- Digits of another base stand behind a zero and a letter for the base. -/
theorem run_based {letters : List Char} {p : Char → Bool} (h : rest.Fails p) (d c : Char) (s : Text) :
    (based letters p).run whole rest (d :: c :: s) =
      if d = '0' ∧ c ∈ letters then (skipSome? p s).bind rest else none := by
  rw [based, run_append, run_append, run_literal, keyword?]
  by_cases hd : d = '0'
  · by_cases hc : c ∈ letters <;> simp [hd, hc, keyword?, among, run_plus_one h]
  · simp [hd, Ne.symm hd]

/-- A single character is no number of another base. -/
theorem run_based_singleton {letters : List Char} {p : Char → Bool} (d : Char) :
    (based letters p).run whole rest [d] = none := by
  rw [based, run_append, run_append, run_literal, keyword?]
  split <;> rfl

theorem run_decimal (d : Char) (s : Text) : (one isDigit ++ star (one isDecimalDigit)).run whole afterDigits (d :: s) =
    if isDigit d then afterDigits (s.dropWhile isDecimalDigit) else none := by
  have hfails : Rest.Fails afterDigits isDecimalDigit := afterDigits_fails fun c hc h => by simp [hc] at h
  rw [run_append, run_one_cons, run_star_one_of_fails hfails]

/-- Digits are read in the base that they are written in. -/
theorem run_digits (s : Text) : digits.run whole afterDigits s = (skipDigits? s).bind afterDigits := by
  have hhex : Rest.Fails afterDigits isHexDigit := afterDigits_fails fun c hc h => by simp [hc] at h
  have hbin : Rest.Fails afterDigits isBinaryDigit := fun c s hc => hhex c s (isHexDigit_of_isBinaryDigit hc)
  have hbase : Rest.Fails afterDigits (baseLetters.contains ·) :=
    afterDigits_fails fun c hc h => h.2.2 (by simpa using hc)
  have hdecimal : ∀ d s, (d = '0' → ∀ c ∈ s.head?, c ∉ baseLetters) →
      (one isDigit ++ star (one isDecimalDigit)).run whole afterDigits (d :: s) =
        (skipDigits? (d :: s)).bind afterDigits := by
    intro d s hs
    rw [run_decimal]
    cases hd : isDigit d with
    | true => rw [skipDigits?_decimal hd hs, if_pos rfl, Option.bind_some]
    | false => rw [skipDigits?_eq_none (forall_head?_cons hd s)]; rfl
  rw [digits, run_alt, run_alt]
  match s with
  | [] => rfl
  | [d] =>
    rw [run_based_singleton, run_based_singleton, Option.none_or, Option.none_or]
    exact hdecimal d [] (by simp)
  | d :: c :: s =>
    rw [run_based hhex, run_based hbin]
    by_cases hletter : d = '0' ∧ c ∈ baseLetters
    · obtain ⟨rfl, hc⟩ := hletter
      -- the letter ends a decimal number, and no match goes on behind it
      have hnone : (one isDigit ++ star (one isDecimalDigit)).run whole afterDigits ('0' :: c :: s) = none := by
        have hc' : isDecimalDigit c = false := by
          cases hdigit : isDecimalDigit c with
          | false => rfl
          | true => exact absurd hc (notMem_baseLetters_of_isDecimalDigit hdigit)
        rw [run_decimal, List.dropWhile_cons_of_neg (by simp [hc']), hbase c s (by simpa using hc), ite_self]
      rw [hnone, Option.or_none]
      have hcases : c = 'x' ∨ c = 'X' ∨ c = 'b' ∨ c = 'B' := by simpa [baseLetters] using hc
      rcases hcases with rfl | rfl | rfl | rfl <;> simp [skipDigits?]
    · have hx : ¬ (d = '0' ∧ c ∈ ['x', 'X']) := fun h => hletter ⟨h.1, List.mem_append_left ['b', 'B'] h.2⟩
      have hb : ¬ (d = '0' ∧ c ∈ ['b', 'B']) := fun h => hletter ⟨h.1, List.mem_append_right ['x', 'X'] h.2⟩
      rw [if_neg hx, if_neg hb, Option.none_or, Option.none_or]
      exact hdecimal d (c :: s) fun hd => forall_head?_cons (fun hc => hletter ⟨hd, hc⟩) s

/-- What follows the name of a member: perhaps an initialiser, then what follows it. -/
def afterMember (s : Text) : Option Captures := if endsEnumerator s then some [] else none

/-- A sign may stand in front of the digits. -/
theorem run_signed (s : Text) : (opt (among ['-', '+'])).run whole (digits.run whole afterDigits) s =
    (skipDigits? (skipSign s)).bind afterDigits := by
  cases s with
  | nil => rfl
  | cons c s =>
    rw [run_opt, among, run_one_cons, run_digits, run_digits]
    by_cases hc : c = '-' ∨ c = '+'
    · have hnone : skipDigits? (c :: s) = none := by
        refine skipDigits?_eq_none (forall_head?_cons ?_ s)
        rcases hc with rfl | rfl <;> decide
      rw [hnone]
      rcases hc with rfl | rfl <;> simp [skipSign]
    · obtain ⟨hminus, hplus⟩ := not_or.mp hc
      simp [skipSign, hminus, hplus]

/-- An initialiser has no match but the one that takes its number as a whole. -/
theorem run_initialiser (s : Text) : initialiser.run whole (endAfter ',') s =
    (keyword? ['='] s).bind fun s => (skipDigits? (skipSign (skipBlanks s))).bind afterDigits := by
  have hsigned : Rest.Fails (fun s => (skipDigits? (skipSign s)).bind afterDigits) isBlank := by
    intro c s hc
    have hminus : c ≠ '-' := by rintro rfl; exact absurd hc (by decide)
    have hplus : c ≠ '+' := by rintro rfl; exact absurd hc (by decide)
    have hdigit : isDigit c = false := by
      cases hd : isDigit c with
      | false => rfl
      | true => rw [isBlank_eq_false_of_isWord (isWord_of_isDigit hd)] at hc; cases hc
    have hnone : skipDigits? (c :: s) = none := skipDigits?_eq_none (forall_head?_cons hdigit s)
    simp [skipSign, hminus, hplus, hnone]
  have hrun : (opt (among ['-', '+'])).run whole (digits.run whole afterDigits) =
      fun s => (skipDigits? (skipSign s)).bind afterDigits := funext run_signed
  simp only [initialiser, run_append, run_afterDigits, hrun, run_literal, run_blanks_of_fails hsigned]

theorem afterMember_eq (s : Text) : afterMember s = (skipInitialiser? s).bind (endAfter ',') := by
  rw [afterMember, endsEnumerator]
  split
  · rename_i t hskip
    rw [hskip, Option.bind_some, endAfter_self (by decide) (by decide)]
    rfl
  · rename_i t hcomma hskip
    rw [hskip, Option.bind_some, endAfter_of_ne hcomma]
    rfl
  · rename_i hskip
    rw [hskip]
    rfl

/-- An initialiser is read wherever it starts: nothing else that may follow a name starts with an equals sign. -/
theorem run_afterMember (whole : Text) :
    (blanks ++ opt initialiser ++ opt (literal [',']) ++ trailing).run whole atEnd = afterMember := by
  have hnone : ∀ {c : Char} (s : Text), c ≠ '=' → keyword? ['='] (c :: s) = none := fun s hc => if_neg hc.symm
  have hblanks : ∀ s, (opt initialiser).run whole (endAfter ',') (skipBlanks s) = none →
      (opt initialiser).run whole (endAfter ',') s = none := by
    intro s h
    rw [run_opt] at h ⊢
    obtain ⟨hinitialiser, hafter⟩ := Option.or_eq_none_iff.mp h
    rw [endAfter_skipBlanks (by decide) hafter, Option.or_none]
    cases s with
    | nil => exact hinitialiser
    | cons c s =>
      by_cases hc : isBlank c = true
      · have hne : c ≠ '=' := by rintro rfl; exact absurd hc (by decide)
        rw [run_initialiser, hnone s hne, Option.bind_none]
      · rwa [skipBlanks_eq_self (forall_head?_cons (by simpa using hc) s)] at hinitialiser
  funext s
  simp only [run_append, run_trailing, run_endAfter]
  rw [run_blanks hblanks, run_opt, run_initialiser, afterMember_eq, skipInitialiser?]
  split
  · rename_i t hequals
    rw [hequals, show keyword? ['='] ('=' :: t) = some t from keyword?_append ['='] t, Option.bind_some,
      endAfter_cons (by decide) (by decide) (by decide), Option.or_none, Option.bind_map]
    rfl
  · rename_i t hequals
    rw [keyword?_eq_none hequals, Option.bind_none, Option.none_or, Option.bind_some]

/-- No part of a word starts what follows the name of a member. -/
theorem afterMember_fails : Rest.Fails afterMember isWord := by
  intro c s hc
  have hb : isBlank c = false := isBlank_eq_false_of_isWord hc
  have hne : ∀ {d : Char}, d ∈ delimiters → c ≠ d := fun hd => ne_of_isWord hc (isWord_delimiter hd)
  have hskip : skipInitialiser? (c :: s) = some (c :: s) := by
    rw [skipInitialiser?, skipBlanks_eq_self (forall_head?_cons hb s)]
    split
    · rename_i heq
      exact absurd (List.cons.inj heq).1 (hne (by decide))
    · rfl
  rw [afterMember_eq, hskip, Option.bind_some, endAfter_cons hb (hne (by decide)) (hne (by decide))]

/-- The name of a member is the word in front of what follows it. -/
theorem run_member (s : Text) : (part .name (plus (one isWord))).run whole afterMember s =
    if s.takeWhile isWord ≠ [] ∧ endsEnumerator (s.dropWhile isWord) then
      some [(.name, ⟨s.takeWhile isWord, byteLength whole - byteLength s⟩)]
    else none := by
  have htake := take_length_sub (s.takeWhile isWord) (s.dropWhile isWord)
  rw [List.takeWhile_append_dropWhile] at htake
  rw [run_part, run_plus_one fun c t hc => by rw [afterMember_fails c t hc, Option.map_none]]
  cases s with
  | nil => rfl
  | cons c s =>
    by_cases hc : isWord c = true
    · rw [List.dropWhile_cons_of_pos hc] at htake
      rw [skipSome?, if_pos hc, Option.bind_some, htake, List.takeWhile_cons_of_pos hc, List.dropWhile_cons_of_pos hc,
        afterMember]
      cases endsEnumerator (s.dropWhile isWord) <;> simp
    · rw [skipSome?, if_neg hc, List.takeWhile_cons_of_neg hc]
      simp

theorem captures?_enumerator (s : Text) : enumerator.captures? s =
    if (skipBlanks s).takeWhile isWord ≠ [] ∧ endsEnumerator ((skipBlanks s).dropWhile isWord) then
      some [(.name, ⟨(skipBlanks s).takeWhile isWord, byteLength s - byteLength (skipBlanks s)⟩)]
    else none := by
  have hafter := run_afterMember s
  simp only [run_append] at hafter
  simp only [captures?, enumerator, run_append, hafter]
  rw [run_blanks_of_fails, run_member]
  intro c t hc
  simp [run_member, isWord_eq_false_of_isBlank hc]

end Enumerators

end Pattern

/-- **The reader of enumerators finds the name that the pattern finds**, in the same place. -/
theorem enumerator?_eq_captures? (e : Excerpt) : enumerator? e = (Pattern.enumerator.captures? e.text).bind fun parts =>
    (parts.lookup .name).map fun name => ⟨name.text, e.start + name.start⟩ := by
  have hstart : byteLength e.text - byteLength (skipBlanks e.text) = byteLength (e.text.takeWhile isBlank) := by
    have hlength := congrArg byteLength (List.takeWhile_append_dropWhile (p := isBlank) (l := e.text))
    rw [byteLength_append] at hlength
    rw [skipBlanks]
    omega
  rw [Pattern.captures?_enumerator, hstart, enumerator?]
  split <;> rfl

end EnumStrings
