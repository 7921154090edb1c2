import EnumStrings.Proofs.EnumeratorPattern

/-!
# The pattern of declaration lines

The reader of declaration lines finds the name and the members that the pattern finds
(`Declaration.ofLine?_eq_captures?`).

* Between the braces the trials go back from the first closing brace to the last pair of slashes (`inlineBody?_cons`,
  `Pattern.run_inside`).
* An underlying type is taken as far as it goes (`Pattern.run_typeWords`).
* A qualifier is given back if no name follows it (`Pattern.run_qualifier`).
-/

namespace EnumStrings

section Bodies

variable {c : Char} {b s u x y : Text}

/-- A line that ends with a comment has no line feed behind a pair of slashes. -/
theorem isComment_of_isTrailing (h : isTrailing (x ++ '/' :: '/' :: y) = true) :
    isComment ('/' :: '/' :: y) = true := by
  obtain ⟨w, k, hw, hk, hline⟩ := isTrailing_iff.mp h
  obtain ⟨z, -, rfl⟩ := exists_cut (hw.notMem (by decide)) hline
  have hn : '\n' ∉ z ++ '/' :: '/' :: y := by
    generalize z ++ '/' :: '/' :: y = k at hk
    cases hk with
    | absent => simp
    | present hk => simpa using hk
  have hy : '\n' ∉ y := fun h => hn (List.mem_append_right z (List.mem_cons_of_mem _ (List.mem_cons_of_mem _ h)))
  simpa [isComment] using hy

/-- A comment that swallows a closing brace starts in front of it. -/
theorem exists_slashes_of_isTrailing (h : isTrailing (b ++ '}' :: u) = true) :
    ∃ w y, Blanks w ∧ b = w ++ '/' :: '/' :: y := by
  obtain ⟨w, k, hw, hk, hline⟩ := isTrailing_iff.mp h
  cases hk with
  | absent =>
    have hbrace : '}' ∈ w := by
      rw [List.append_nil] at hline
      rw [← hline]
      simp
    exact absurd hbrace (hw.notMem (by decide))
  | @present k _ =>
    have hbrace : '}' ∉ w ++ ['/', '/'] := by
      simp [hw.notMem (show isBlank '}' = false by decide)]
    obtain ⟨y, rfl, -⟩ := exists_cut (x := k) hbrace (by simpa using hline)
    exact ⟨w, y, hw, by simp⟩

/-- Without a pair of slashes in front of it, a closing brace is part of no comment. -/
theorem not_isTrailing_of_noSlashes (hb : beforeLastSlashes? b = none) (hpair : ¬ (c = '/' ∧ b.head? = some '/')) :
    ¬ isTrailing (c :: b ++ '}' :: u) = true := by
  intro h
  obtain ⟨w, y, -, hcut⟩ := exists_slashes_of_isTrailing h
  cases w with
  | nil =>
    obtain ⟨rfl, rfl⟩ := List.cons.inj hcut
    exact hpair ⟨rfl, rfl⟩
  | cons d w =>
    obtain ⟨-, rfl⟩ := List.cons.inj hcut
    exact beforeLastSlashes?_eq_none_iff.mp hb ⟨w, y, by simp⟩

/-- The search for members goes on to the last pair of slashes, and ends in front of a comment if there is no pair
further on. -/
theorem filter_beforeLastSlashes?_cons (c : Char) (b u : Text) :
    ((beforeLastSlashes? (c :: b)).filter fun x => isComment ((c :: b ++ '}' :: u).drop x.length)) =
      (((beforeLastSlashes? b).filter fun x => isComment ((b ++ '}' :: u).drop x.length)).map (c :: ·)).or
        (if isTrailing (c :: b ++ '}' :: u) then some [] else none) := by
  rw [beforeLastSlashes?]
  cases hx : beforeLastSlashes? b with
  | some x =>
    obtain ⟨y, rfl, -⟩ := beforeLastSlashes?_eq_some_iff.mp hx
    have hdrop : (x ++ '/' :: '/' :: y ++ '}' :: u).drop x.length = '/' :: '/' :: (y ++ '}' :: u) := by simp
    have hdrop' : (c :: (x ++ '/' :: '/' :: y) ++ '}' :: u).drop (c :: x).length = '/' :: '/' :: (y ++ '}' :: u) :=
      hdrop
    have hline : c :: (x ++ '/' :: '/' :: y) ++ '}' :: u = (c :: x) ++ '/' :: '/' :: (y ++ '}' :: u) := by simp
    dsimp only
    rw [Option.filter_some, Option.filter_some, hdrop, hdrop']
    by_cases hcomment : isComment ('/' :: '/' :: (y ++ '}' :: u)) = true
    · rw [if_pos hcomment, if_pos hcomment, Option.map_some, Option.some_or]
    · have hnot : ¬ isTrailing (c :: (x ++ '/' :: '/' :: y) ++ '}' :: u) = true := by
        rw [hline]
        exact mt isComment_of_isTrailing hcomment
      rw [if_neg hcomment, if_neg hcomment, if_neg hnot]
      rfl
  | none =>
    dsimp only
    by_cases hpair : c = '/' ∧ b.head? = some '/'
    · have hskip : skipBlanks (c :: b ++ '}' :: u) = c :: b ++ '}' :: u :=
        skipBlanks_eq_self (forall_head?_cons (by rw [hpair.1]; decide) _)
      rw [if_pos hpair, Option.filter_some, isTrailing, hskip]
      rfl
    · rw [if_neg hpair, if_neg (not_isTrailing_of_noSlashes hx hpair)]
      rfl

/-- Of the text behind an opening brace the longest part is searched for members that a closing brace or a comment may
follow. -/
theorem inlineBody?_cons (hc : c ≠ '}') (s : Text) : inlineBody? (c :: s) =
    ((inlineBody? s).map (c :: ·)).or (if isTrailing (c :: s) then some [] else none) := by
  by_cases hs : '}' ∈ s
  · obtain ⟨b, u, rfl, hb⟩ := List.eq_append_cons_of_mem hs
    have hcb : '}' ∉ c :: b := by simp [hb, hc.symm]
    rw [← List.cons_append, inlineBody?_closing hb, inlineBody?_closing hcb]
    by_cases hu : isTrailing (skipSemicolon u) = true
    · rw [if_pos hu, if_pos hu, Option.map_some, Option.some_or]
    · rw [if_neg hu, if_neg hu, filter_beforeLastSlashes?_cons]
  · have hcs : '}' ∉ c :: s := by simp [hs, hc.symm]
    rw [inlineBody?_open hs, inlineBody?_open hcs, Option.map_some, Option.some_or]

end Bodies

namespace Pattern

section Bodies

variable {whole : Text}

/-- A closing brace is read with the semicolon behind it. -/
theorem run_closing (s : Text) : (opt closing).run whole lineEnd ('}' :: s) = lineEnd (skipSemicolon s) := by
  have hbrace : keyword? ['}'] ('}' :: s) = some s := keyword?_append ['}'] s
  rw [run_opt, lineEnd_cons (by decide) (by decide), Option.or_none, closing, run_append, run_append, run_endAfter,
    run_blanks_endAfter (by decide), run_literal, hbrace, Option.bind_some, skipSemicolon]
  split
  · rename_i t hsemicolon
    rw [hsemicolon, endAfter_self (by decide) (by decide)]
  · rename_i hne
    exact endAfter_of_ne hne

theorem run_closing_absent {s : Text} (hs : s.head? ≠ some '}') : (opt closing).run whole lineEnd s = lineEnd s := by
  rw [run_opt, closing, run_append, run_append, run_literal, keyword?_eq_none, Option.bind_none, Option.none_or]
  rintro t rfl
  exact hs rfl

/-- What is found behind the text `b` that has been taken behind the opening brace, at the byte `n`. -/
theorem run_inside (n : Nat) (b s : Text) : (star (one (· != '}'))).run whole (fun t =>
    ((opt closing).run whole lineEnd t).map ((.body, ⟨(b ++ s).take ((b ++ s).length - t.length), n⟩) :: ·)) s =
      (inlineBody? s).map fun x => [(.body, ⟨b ++ x, n⟩)] := by
  induction s generalizing b with
  | nil =>
    rw [run_star_one_nil, run_closing_absent (by simp), take_length_sub, inlineBody?_open List.not_mem_nil,
      Option.map_some, List.append_nil]
    rfl
  | cons c s ih =>
    rw [run_star_one_cons, take_length_sub]
    by_cases hc : c = '}'
    · subst hc
      have hbody := inlineBody?_closing (b := []) List.not_mem_nil s
      rw [List.nil_append] at hbody
      rw [if_neg (by simp), Option.none_or, run_closing, hbody, lineEnd]
      cases isTrailing (skipSemicolon s) <;> simp [beforeLastSlashes?]
    · have hassoc : b ++ c :: s = b ++ [c] ++ s := by simp
      rw [if_pos (by simpa using hc), run_closing_absent (by simpa using hc), inlineBody?_cons hc, hassoc, ih,
        lineEnd]
      cases inlineBody? s <;> cases isTrailing (c :: s) <;> simp

/-- What is found in the tail of a declaration line. -/
def tailParts (whole : Text) : Text → Option Captures
  | '{' :: s => (inlineBody? s).map fun b => [(.body, ⟨b, byteLength whole - byteLength s⟩)]
  | s => lineEnd s

theorem tailParts_of_ne {s : Text} (h : ∀ t, s ≠ '{' :: t) : tailParts whole s = lineEnd s := by
  unfold tailParts
  split
  · exact absurd rfl (h _)
  · rfl

/-- Braces are read wherever they open: no line ends with an opening brace. -/
theorem run_tail : (opt braces).run whole lineEnd = tailParts whole := by
  funext s
  rw [run_opt, braces, run_append, run_append, run_literal]
  by_cases hs : ∃ t, s = '{' :: t
  · obtain ⟨t, rfl⟩ := hs
    have hbrace : keyword? ['{'] ('{' :: t) = some t := keyword?_append ['{'] t
    rw [hbrace, Option.bind_some, lineEnd_cons (by decide) (by decide), Option.or_none, run_part]
    exact run_inside _ [] t
  · rw [keyword?_eq_none fun t ht => hs ⟨t, ht⟩, Option.bind_none, Option.none_or,
      tailParts_of_ne fun t ht => hs ⟨t, ht⟩]

/-- Only white space, a slash or a brace starts the tail of a declaration line. -/
theorem tailParts_cons {c : Char} (hb : isBlank c = false) (hbrace : c ≠ '{') (hslash : c ≠ '/') (s : Text) :
    tailParts whole (c :: s) = none := by
  rw [tailParts_of_ne fun t ht => hbrace (List.cons.inj ht).1, lineEnd_cons hb hslash]

/-- White space may stand in front of the tail. -/
theorem tailParts_skipBlanks {s : Text} (h : tailParts whole (skipBlanks s) = none) : tailParts whole s = none := by
  cases s with
  | nil => exact h
  | cons c s =>
    by_cases hc : isBlank c = true
    · have hne : ∀ t, c :: s ≠ '{' :: t := by
        rintro t heq
        rw [(List.cons.inj heq).1] at hc
        cases hc
      rw [tailParts_of_ne hne, ← lineEnd_skipBlanks]
      by_cases hs : ∃ t, skipBlanks (c :: s) = '{' :: t
      · obtain ⟨t, ht⟩ := hs
        rw [ht, lineEnd_cons (by decide) (by decide)]
      · rwa [tailParts_of_ne fun t ht => hs ⟨t, ht⟩] at h
    · rwa [skipBlanks_eq_self (forall_head?_cons (by simpa using hc) s)] at h

end Bodies

/-! ## The underlying type -/

section Types

variable {whole s : Text} {rest : Rest}

/-- What follows the underlying type: white space and the tail. -/
def afterType (whole s : Text) : Option Captures := tailParts whole (skipBlanks s)

theorem run_afterType : blanks.run whole (tailParts whole) = afterType whole :=
  funext (run_blanks fun _ => tailParts_skipBlanks)

/-- No part of a type starts what follows it. -/
theorem afterType_fails (whole : Text) : Rest.Fails (afterType whole) isTypeChar := by
  intro c s hc
  have hb : isBlank c = false := isBlank_eq_false_of_isTypeChar hc
  have hbrace : c ≠ '{' := by rintro rfl; rw [isTypeChar_delimiter (by decide) (by decide)] at hc; cases hc
  have hslash : c ≠ '/' := by rintro rfl; rw [isTypeChar_delimiter (by decide) (by decide)] at hc; cases hc
  rw [afterType, skipBlanks_eq_self (forall_head?_cons hb s)]
  exact tailParts_cons hb hbrace hslash s

theorem run_typeWord_cons (h : rest.Fails isTypeChar) (c : Char) (s : Text) : typeWord.run whole rest (c :: s) =
    if isTypeStart c then rest (s.dropWhile isTypeChar) else none := by
  rw [typeWord, run_append, run_one_cons, run_star_one_of_fails h]

/-- A word of a type starts with no white space. -/
theorem typeWord_fails : Rest.Fails (typeWord.run whole rest) isBlank := by
  intro c s hc
  have hstart : ¬ isTypeStart c = true := by
    intro h
    rw [isBlank_eq_false_of_isTypeStart h] at hc
    cases hc
  rw [typeWord, run_append, run_one_cons, if_neg hstart]

theorem skipTypeWords_eq_self (hs : ∀ c ∈ s.head?, isTypeStart c = false) : skipTypeWords s = s := by
  cases s with
  | nil => rw [skipTypeWords]
  | cons c s => rw [skipTypeWords, if_neg (by simp [hs c rfl])]

theorem skipSomeBlanks?_of_head (hs : ∀ c ∈ s.head?, isBlank c = false) : skipSomeBlanks? s = none := by
  cases s with
  | nil => rfl
  | cons c s => rw [skipSomeBlanks?, if_neg (by simp [hs c rfl])]

/-- No word of a type starts directly behind another. -/
theorem head_behindType (s : Text) : ∀ c ∈ (s.dropWhile isTypeChar).head?, isTypeStart c = false := by
  intro c hc
  have hend := head_dropWhile isTypeChar s c hc
  cases hstart : isTypeStart c with
  | false => rfl
  | true => rw [isTypeChar_of_isTypeStart hstart] at hend; cases hend

/-- No part of a type starts what follows its words. -/
theorem run_typeWords_fails (whole : Text) :
    Rest.Fails ((star (someBlanks ++ typeWord)).run whole (afterType whole)) isTypeChar := by
  intro c s hc
  have hb : isBlank c = false := isBlank_eq_false_of_isTypeChar hc
  rw [run_star, run_append, run_someBlanks typeWord_fails, skipSomeBlanks?_of_head (forall_head?_cons hb s),
    Option.bind_none, Option.none_or, afterType_fails whole c s hc]

/-- The words of a type are taken as far as they go. -/
theorem run_typeWords (hs : ∀ c ∈ s.head?, isTypeStart c = false) :
    (star (someBlanks ++ typeWord)).run whole (afterType whole) s = tailParts whole (skipTypeWords (skipBlanks s)) := by
  induction hn : s.length using Nat.strong_induction_on generalizing s with
  | _ n ih =>
    subst hn
    rw [run_star, run_append, run_someBlanks typeWord_fails]
    by_cases hb : ∀ c ∈ s.head?, isBlank c = false
    · rw [skipSomeBlanks?_of_head hb, Option.bind_none, Option.none_or, afterType, skipBlanks_eq_self hb,
        skipTypeWords_eq_self hs]
    · obtain ⟨c, u, rfl, hc⟩ : ∃ c u, s = c :: u ∧ isBlank c = true := by
        cases s with
        | nil => simp at hb
        | cons c u => exact ⟨c, u, rfl, by simpa using hb⟩
      rw [skipSomeBlanks?, if_pos hc, Option.bind_some, afterType, skipBlanks_cons hc]
      cases hr : skipBlanks u with
      | nil => rw [skipTypeWords]; rfl
      | cons d r =>
        have hfails := run_typeWords_fails whole
        rw [run_typeWord_cons fun e t he => by rw [hfails e t he, ite_self]]
        by_cases hd : isTypeStart d = true
        · have hlt : (r.dropWhile isTypeChar).length < (c :: u).length := by
            have hdrop := (List.dropWhile_suffix (l := r) isTypeChar).length_le
            have hskip := (List.dropWhile_suffix (l := u) isBlank).length_le
            rw [← skipBlanks, hr] at hskip
            simp only [List.length_cons] at hskip ⊢
            omega
          have hnone : tailParts whole (d :: r) = none := by
            have hafter := afterType_fails whole d r (isTypeChar_of_isTypeStart hd)
            rwa [afterType, skipBlanks_eq_self (forall_head?_cons (isBlank_eq_false_of_isTypeStart hd) r)] at hafter
          rw [if_pos hd, if_pos hlt, ih _ hlt (head_behindType r) rfl, hnone, Option.or_none, skipTypeWords, if_pos hd]
        · rw [if_neg hd, Option.none_or, skipTypeWords, if_neg hd]

/-- A colon and the words of a type may stand in front of the tail. -/
theorem run_underlying (s : Text) : (opt underlying).run whole (afterType whole) s =
    (skipUnderlying? s).bind (tailParts whole) := by
  have hcolon : ∀ rest : Rest, Rest.Fails ((literal [':']).run whole rest) isBlank := by
    intro rest c s hc
    have hne : ':' ≠ c := by rintro rfl; exact absurd hc (by decide)
    rw [run_literal, keyword?, if_neg hne, Option.bind_none]
  simp only [run_opt, underlying, run_append]
  rw [run_blanks_of_fails (hcolon _), run_literal, afterType, skipUnderlying?]
  split
  · rename_i t ht
    have hkeyword : keyword? [':'] (':' :: t) = some t := keyword?_append [':'] t
    rw [ht, tailParts_cons (by decide) (by decide) (by decide), Option.or_none, hkeyword, Option.bind_some,
      run_blanks_of_fails typeWord_fails]
    cases skipBlanks t with
    | nil => rfl
    | cons d r =>
      rw [run_typeWord_cons (run_typeWords_fails whole)]
      by_cases hd : isTypeStart d = true
      · simp only [if_pos hd, Option.bind_some, run_typeWords (head_behindType r), skipTypeWords]
      · simp only [if_neg hd, Option.bind_none]
  · rename_i hne
    rw [keyword?_eq_none hne, Option.bind_none, Option.none_or, Option.bind_some]

end Types

/-! ## The name -/

section Names

variable {whole : Text}

/-- What follows the name: perhaps an underlying type, then the tail. -/
def afterName (whole s : Text) : Option Captures := (skipUnderlying? s).bind (tailParts whole)

theorem run_afterName (whole : Text) :
    (opt underlying ++ blanks ++ opt braces ++ trailing).run whole atEnd = afterName whole := by
  simp only [run_append, run_trailing, run_tail, run_afterType]
  exact funext run_underlying

/-- No word follows the name, not even behind white space. -/
theorem afterName_eq_none {c : Char} {s t : Text} (hs : skipBlanks s = c :: t) (hc : isWord c = true) :
    afterName whole s = none := by
  have hne : ∀ {d : Char}, d ∈ delimiters → c ≠ d := fun hd => ne_of_isWord hc (isWord_delimiter hd)
  have hskip : skipUnderlying? s = some (c :: t) := by
    rw [skipUnderlying?, hs]
    split
    · rename_i heq
      exact absurd (List.cons.inj heq).1 (hne (by decide))
    · rfl
  rw [afterName, hskip, Option.bind_some]
  exact tailParts_cons (isBlank_eq_false_of_isWord hc) (hne (by decide)) (hne (by decide)) t

theorem afterName_fails : Rest.Fails (afterName whole) isWord := fun _ s hc =>
  afterName_eq_none (skipBlanks_eq_self (forall_head?_cons (isBlank_eq_false_of_isWord hc) s)) hc

/-- The name that is found, together with what is found behind it. -/
def nameParts (whole : Text) (p : Text × Text) : Option Captures :=
  (afterName whole p.2).map ((.name, ⟨p.1, byteLength whole - byteLength (p.1 ++ p.2)⟩) :: ·)

theorem run_name : (part .name (one (·.isAlpha) ++ star (one isWord))).run whole (afterName whole) =
    fun s => (identifier? s).bind (nameParts whole) := by
  funext s
  rw [run_part, run_append]
  cases s with
  | nil => rfl
  | cons c s =>
    rw [run_one_cons, run_star_one_of_fails fun d t hd => by rw [afterName_fails d t hd, Option.map_none], identifier?]
    by_cases hc : c.isAlpha = true
    · have hword : isWord c = true := isWord_of_isAlpha hc
      have htake := take_length_sub (c :: s.takeWhile isWord) (s.dropWhile isWord)
      rw [List.cons_append, List.takeWhile_append_dropWhile] at htake
      rw [if_pos hc, if_pos hc, htake, Option.bind_some, List.takeWhile_cons_of_pos hword,
        List.dropWhile_cons_of_pos hword, nameParts, List.cons_append, List.takeWhile_append_dropWhile]
    · rw [if_neg hc, if_neg hc, Option.bind_none]

/-- White space is no name. -/
theorem identifier?_eq_none {c : Char} {s : Text} (hc : isBlank c = true) : identifier? (c :: s) = none := by
  have halpha : ¬ c.isAlpha = true := by
    intro h
    rw [isBlank_eq_false_of_isWord (isWord_of_isAlpha h)] at hc
    cases hc
  rw [identifier?, if_neg halpha]

/-- A word in front of a name is not followed by a tail. -/
theorem nameParts_eq_none {p next : Text × Text} (h : nextName? p.2 = some next) : nameParts whole p = none := by
  obtain ⟨v, hv, -, hname, -, hrest⟩ := exists_blanks_of_nextName? (n := next.1) (r := next.2) h
  have hskip : skipBlanks p.2 = next.1 ++ next.2 := by
    rw [hrest, skipBlanks_append hv, skipBlanks_eq_self (hname.head next.2)]
  rw [nameParts]
  cases hname' : next.1 with
  | nil => rw [hname'] at hname; cases hname
  | cons c s =>
    have hc : isWord c = true := hname.isWord c (hname' ▸ List.mem_cons_self)
    rw [hname', List.cons_append] at hskip
    rw [afterName_eq_none hskip hc, Option.map_none]

/-- White space stands in front of the name. -/
theorem run_nextName : someBlanks.run whole (fun s => (identifier? s).bind (nameParts whole)) =
    fun s => (nextName? s).bind (nameParts whole) := by
  funext s
  rw [run_someBlanks, nextName?, Option.bind_assoc]
  intro c s hc
  simp only [identifier?_eq_none hc, Option.bind_none]

/-- A qualifier is the whole word behind `enum`, if a name comes next. -/
theorem bind_keyword?_qualifier {q : Text} (hq : q ∈ qualifiers) (s : Text) (f : Text × Text → Option Captures) :
    ((keyword? q s).bind fun t => (nextName? t).bind f) =
      (identifier? s).bind fun p => if p.1 = q then (nextName? p.2).bind f else none := by
  have hname : EnumName q := enumName_of_mem_qualifiers hq
  cases hs : keyword? q s with
  | none =>
    symm
    rw [Option.bind_none, Option.bind_eq_none_iff]
    rintro ⟨n, r⟩ hn
    obtain ⟨-, rfl⟩ := enumName_of_identifier? hn
    refine if_neg ?_
    rintro rfl
    rw [keyword?_append] at hs
    cases hs
  | some t =>
    obtain rfl := eq_append_of_keyword? hs
    rw [Option.bind_some]
    by_cases ht : ∀ c ∈ t.head?, isWord c = false
    · rw [identifier?_append hname ht, Option.bind_some, if_pos rfl]
    · -- the word goes on behind the qualifier, so that no name comes next there
      have hnext : nextName? t = none := by
        rw [nextName?, skipSomeBlanks?_of_head, Option.bind_none]
        intro c hc
        cases t with
        | nil => cases hc
        | cons d t =>
          obtain rfl := Option.some.inj hc
          exact isBlank_eq_false_of_isWord (by simpa using ht)
      symm
      rw [hnext, Option.bind_none, Option.bind_eq_none_iff]
      rintro ⟨n, r⟩ hn
      obtain ⟨-, hparts⟩ := enumName_of_identifier? hn
      by_cases hq' : n = q
      · subst hq'
        rw [if_pos rfl, List.append_cancel_left hparts.symm, hnext, Option.bind_none]
      · rw [if_neg hq']

/-- Neither qualifier starts the other, so that the order of the trials makes no difference. -/
theorem run_qualifiers (s : Text) (f : Text × Text → Option Captures) :
    (alt (literal "class".toList) (literal "struct".toList)).run whole (fun t => (nextName? t).bind f) s =
      (identifier? s).bind fun p => if p.1 ∈ qualifiers then (nextName? p.2).bind f else none := by
  rw [run_alt, run_literal, run_literal, bind_keyword?_qualifier (by decide), bind_keyword?_qualifier (by decide)]
  cases identifier? s with
  | none => rfl
  | some p =>
    have hmem : p.1 ∈ qualifiers ↔ p.1 = "class".toList ∨ p.1 = "struct".toList := by
      rw [qualifiers, List.mem_cons, List.mem_singleton]
    have hne : "class".toList ≠ "struct".toList := by decide
    simp only [Option.bind_some, hmem]
    by_cases hclass : p.1 = "class".toList
    · rw [if_pos hclass, if_pos (Or.inl hclass), if_neg (hclass ▸ hne), Option.or_none]
    · rw [if_neg hclass, Option.none_or]
      exact if_congr (or_iff_right hclass).symm rfl rfl

/-- A name behind a qualifier is tried first, and then the qualifier as a name. -/
theorem run_qualifier (s : Text) : (opt qualifier).run whole (fun s => (nextName? s).bind (nameParts whole)) s =
    ((skipSomeBlanks? s).bind declaredName?).bind (nameParts whole) := by
  rw [run_opt, qualifier, run_append, run_someBlanks, nextName?]
  · cases hs : skipSomeBlanks? s with
    | none => rfl
    | some t =>
      rw [Option.bind_some, Option.bind_some, Option.bind_some, run_qualifiers, declaredName?_eq]
      cases identifier? t with
      | none => rfl
      | some p =>
        rw [Option.bind_some, Option.bind_some, Option.map_some, Option.bind_some]
        by_cases hq : p.1 ∈ qualifiers
        · rw [if_pos hq, if_pos hq]
          cases hnext : nextName? p.2 with
          | none => rfl
          | some next =>
            rw [nameParts_eq_none hnext, Option.or_none]
            rfl
        · rw [if_neg hq, if_neg hq, Option.none_or]
  · intro c t hc
    rw [run_qualifiers, identifier?_eq_none hc, Option.bind_none]

/-- The pattern is tried at the word `enum`, then at the name, then at the tail. -/
theorem captures?_declaration (s : Text) : declaration.captures? s =
    (keyword? "enum".toList (skipBlanks s)).bind fun t =>
      ((skipSomeBlanks? t).bind declaredName?).bind (nameParts s) := by
  have hname := run_afterName s
  have hkeyword : ∀ rest : Rest, Rest.Fails ((literal "enum".toList).run s rest) isBlank := by
    intro rest c t hc
    rw [run_literal, keyword?_eq_none, Option.bind_none]
    rintro u heq
    rw [(List.cons.inj heq).1] at hc
    cases hc
  simp only [run_append] at hname
  simp only [captures?, declaration, run_append, hname, run_name, run_nextName]
  rw [run_blanks_of_fails (hkeyword _), run_literal]
  exact Option.bind_congr fun t _ => run_qualifier t

end Names

end Pattern

/-- What the tail of a declaration line declares is what is found in it. -/
theorem Declaration.ofTail?_eq_tailParts (name whole r : Text) : ofTail? name (byteLength whole) r =
    (Pattern.tailParts whole r).map fun parts => ⟨name, parts.lookup .body⟩ := by
  unfold ofTail?
  split
  · rw [Pattern.tailParts, Option.map_map]
    rfl
  · rename_i hne
    rw [Pattern.tailParts_of_ne hne, Pattern.lineEnd]
    cases isTrailing r <;> rfl

/-- **The reader of declaration lines finds the name and the members that the pattern finds**, in the same place. -/
theorem Declaration.ofLine?_eq_captures? (line : Text) : ofLine? line =
    (Pattern.declaration.captures? line).bind fun parts =>
      (parts.lookup .name).map fun name => ⟨name.text, parts.lookup .body⟩ := by
  rw [Pattern.captures?_declaration, ofLine?_eq]
  simp only [Option.bind_assoc]
  refine Option.bind_congr fun s _ => Option.bind_congr fun t _ => Option.bind_congr fun p _ => ?_
  rw [Pattern.nameParts, Pattern.afterName]
  cases skipUnderlying? p.2 with
  | none => rfl
  | some r =>
    rw [Option.bind_some, Option.bind_some, Option.bind_map, ofTail?_eq_tailParts, Option.map_eq_bind]
    rfl

end EnumStrings
