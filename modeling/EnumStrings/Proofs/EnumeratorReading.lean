import EnumStrings.Proofs.Grammar

/-!
# Enumerators are read as they are written

The member that a text declares is found by its text alone (`memberName?`), wherever the text stands. An enumerator
declares its member (`memberName?_enumerator`), a member line does (`memberName?_memberLine`), and a text whose first
character other than white space is in no word declares none (`memberName?_eq_none`).
-/

namespace EnumStrings

/-- The name of the member that a text declares, if it is an enumerator. -/
def memberName? (s : Text) : Option Text := (enumerator? ⟨s, 0⟩).map (·.text)

/-- The name of the member does not depend on where the text stands. -/
theorem map_text_enumerator? (e : Excerpt) : (enumerator? e).map (·.text) = memberName? e.text := by
  simp only [memberName?, enumerator?]
  split <;> rfl

/-- The names of the members among some texts depend on the texts only. -/
theorem map_text_filterMap_enumerator? (es : List Excerpt) :
    (es.filterMap enumerator?).map (·.text) = (es.map (·.text)).filterMap memberName? := by
  induction es with
  | nil => rfl
  | cons e es ih =>
    rw [List.map_cons, List.filterMap_cons, List.filterMap_cons, ← map_text_enumerator?]
    cases enumerator? e with
    | none => exact ih
    | some m => simp [ih]

/-! ## Literals -/

section Literals

variable {s r : Text}

/-- The letters that tell the base of a number. -/
def baseLetters : List Char := ['x', 'X', 'b', 'B']

/-- What may follow the digits of a literal: no character that could belong to them. -/
def EndsDigits (r : Text) : Prop :=
  ∀ c ∈ r.head?, isHexDigit c = false ∧ isDecimalDigit c = false ∧ c ∉ baseLetters

/-- The digits of a binary number are hexadecimal. -/
theorem isHexDigit_of_isBinaryDigit {c : Char} (h : isBinaryDigit c = true) : isHexDigit c = true := by
  have hc : (c = '0' ∨ c = '1') ∨ c = '\'' := by simpa [isBinaryDigit] using h
  rcases hc with (rfl | rfl) | rfl <;> decide

/-- No letter that tells the base is a decimal digit. -/
theorem notMem_baseLetters_of_isDecimalDigit {c : Char} (h : isDecimalDigit c = true) : c ∉ baseLetters := by
  intro hc
  have hnone : baseLetters.any isDecimalDigit = false := by decide
  exact List.any_eq_false.mp hnone c hc h

/-- One or more characters of a kind are skipped. -/
theorem skipSome?_append {p : Char → Bool} (hne : s ≠ []) (hs : ∀ c ∈ s, p c = true)
    (hr : ∀ c ∈ r.head?, p c = false) : skipSome? p (s ++ r) = some r := by
  cases s with
  | nil => exact absurd rfl hne
  | cons c s =>
    have hc : p c = true := hs c List.mem_cons_self
    rw [List.cons_append, skipSome?, if_pos hc,
      dropWhile_append_of_head (fun d hd => hs d (List.mem_cons_of_mem c hd)) hr]

/-- A number is decimal if no letter behind its first digit tells another base, as it does behind a zero. -/
theorem skipDigits?_decimal {d : Char} (hd : isDigit d = true) (hs : d = '0' → ∀ c ∈ s.head?, c ∉ baseLetters) :
    skipDigits? (d :: s) = some (s.dropWhile isDecimalDigit) := by
  unfold skipDigits?
  split
  case h_1 heq | h_2 heq | h_3 heq | h_4 heq =>
    obtain ⟨rfl, rfl⟩ := List.cons.inj heq
    exact absurd (by decide) (hs rfl _ rfl)
  case h_5 heq =>
    obtain ⟨rfl, rfl⟩ := List.cons.inj heq
    rw [if_pos hd]
  case h_6 heq => cases heq

/-- A number starts with a digit. -/
theorem skipDigits?_eq_none (hs : ∀ d ∈ s.head?, isDigit d = false) : skipDigits? s = none := by
  unfold skipDigits?
  split
  case h_1 | h_2 | h_3 | h_4 => exact absurd (hs '0' rfl) (by decide)
  case h_5 => rw [if_neg (by simp [hs _ rfl])]
  case h_6 => rfl

/-- The digits of a literal are skipped. -/
theorem skipDigits?_append (hs : Digits s) (hr : EndsDigits r) : skipDigits? (s ++ r) = some r := by
  have hhex : ∀ c ∈ r.head?, isHexDigit c = false := fun c hc => (hr c hc).1
  have hbin : ∀ c ∈ r.head?, isBinaryDigit c = false := by
    intro c hc
    cases hb : isBinaryDigit c with
    | false => rfl
    | true => rw [← hhex c hc, isHexDigit_of_isBinaryDigit hb]
  cases hs with
  | @decimal d s hd hs =>
    have hnext : ∀ c ∈ (s ++ r).head?, c ∉ baseLetters :=
      forall_head?_append (fun c hc => notMem_baseLetters_of_isDecimalDigit (hs c hc)) fun _ c hc => (hr c hc).2.2
    rw [List.cons_append, skipDigits?_decimal hd fun _ => hnext, dropWhile_append_of_head hs fun c hc => (hr c hc).2.1]
  | hexadecimal hx hne hs =>
    rcases hx with rfl | rfl <;> exact skipSome?_append hne hs hhex
  | binary hb hne hs =>
    rcases hb with rfl | rfl <;> exact skipSome?_append hne hs hbin

end Literals

/-! ## Initialisers -/

section Initialisers

variable {v r : Text}

/-- What may follow an enumerator: a comma or a comment. -/
def EndsEnumerator (r : Text) : Prop := ∀ c ∈ r.head?, c = ',' ∨ c = '/'

/-- White space ends the digits of a literal, and the letters behind them. -/
theorem not_literal_of_isBlank : ∀ c, isBlank c = true →
    (isHexDigit c = false ∧ isDecimalDigit c = false ∧ c ∉ baseLetters) ∧ isSuffix c = false :=
  forall_isBlank (by decide +kernel)

/-- The letters behind the digits of a literal end these. -/
theorem not_digit_of_isSuffix {c : Char} (h : isSuffix c = true) :
    isHexDigit c = false ∧ isDecimalDigit c = false ∧ c ∉ baseLetters := by
  have hc : ((c = 'u' ∨ c = 'U') ∨ c = 'l') ∨ c = 'L' := by simpa [isSuffix] using h
  rcases hc with ((rfl | rfl) | rfl) | rfl <;> decide

/-- White space, a comma or a comment ends a literal. -/
theorem EndsEnumerator.ends_literal (hv : Blanks v) (hr : EndsEnumerator r) :
    EndsDigits (v ++ r) ∧ ∀ c ∈ (v ++ r).head?, isSuffix c = false := by
  have hend : ∀ c ∈ (v ++ r).head?,
      (isHexDigit c = false ∧ isDecimalDigit c = false ∧ c ∉ baseLetters) ∧ isSuffix c = false := by
    refine forall_head?_append (fun c hc => not_literal_of_isBlank c (hv c hc)) fun _ c hc => ?_
    rcases hr c hc with rfl | rfl <;> decide
  exact ⟨fun c hc => (hend c hc).1, fun c hc => (hend c hc).2⟩

/-- A sign is skipped. -/
theorem skipSign_append {sign s : Text} (hs : SignPart sign) (hd : Digits s) (r : Text) :
    skipSign (sign ++ (s ++ r)) = s ++ r := by
  cases hs with
  | absent =>
    cases hd with
    | @decimal d s h _ =>
      have hplus : d ≠ '+' := by rintro rfl; exact absurd h (by decide)
      have hminus : d ≠ '-' := by rintro rfl; exact absurd h (by decide)
      simp [skipSign, hplus, hminus]
    | hexadecimal _ _ _ => rfl
    | binary _ _ _ => rfl
  | plus => rfl
  | minus => rfl

/-- A literal starts with no white space. -/
theorem Literal.head {l : Text} (hl : Literal l) (s : Text) : ∀ c ∈ (l ++ s).head?, isBlank c = false := by
  cases hl with
  | mk hsign hdigits _ =>
    cases hsign with
    | absent =>
      cases hdigits with
      | decimal h _ => exact forall_head?_cons (isBlank_eq_false_of_isWord (isWord_of_isDigit h)) _
      | hexadecimal _ _ _ => exact forall_head?_cons (by decide) _
      | binary _ _ _ => exact forall_head?_cons (by decide) _
    | plus => exact forall_head?_cons (by decide) _
    | minus => exact forall_head?_cons (by decide) _

/-- A literal is skipped up to the end of its last letter. -/
theorem skipLiteral_append {l : Text} (hl : Literal l) (hv : Blanks v) (hr : EndsEnumerator r) :
    (skipDigits? (skipSign (l ++ (v ++ r)))).map (·.dropWhile isSuffix) = some (v ++ r) := by
  obtain ⟨hdigits, hsuffix⟩ := hr.ends_literal hv
  cases hl with
  | @mk sign digits suffix hsign hd hs =>
    have hend : EndsDigits (suffix ++ (v ++ r)) :=
      forall_head?_append (fun c hc => not_digit_of_isSuffix (hs c hc)) fun _ => hdigits
    rw [List.append_assoc, List.append_assoc, skipSign_append hsign hd, skipDigits?_append hd hend, Option.map_some,
      dropWhile_append_of_head hs hsuffix]

/-- The initialiser of a member is skipped, and the white space behind it. -/
theorem skipInitialiser?_append {i : Text} (hi : InitialiserPart i) (hv : Blanks v) (hr : EndsEnumerator r) :
    skipInitialiser? (i ++ (v ++ r)) = some r := by
  have hblank : ∀ c ∈ r.head?, isBlank c = false := by
    intro c hc
    rcases hr c hc with rfl | rfl <;> decide
  have hskip : skipBlanks (v ++ r) = r := skipBlanks_append_of_head hv hblank
  cases hi with
  | absent =>
    rw [List.nil_append, skipInitialiser?, hskip]
    split
    · exact absurd (hr '=' rfl) (by decide)
    · rfl
  | @present w x l hw hx hl =>
    have hequals : skipBlanks (w ++ '=' :: (x ++ (l ++ (v ++ r)))) = '=' :: (x ++ (l ++ (v ++ r))) :=
      skipBlanks_append_of_head hw (forall_head?_cons (by decide) _)
    have hliteral : skipBlanks (x ++ (l ++ (v ++ r))) = l ++ (v ++ r) := skipBlanks_append_of_head hx (hl.head _)
    obtain ⟨s, hs, hsuffix⟩ := Option.map_eq_some_iff.mp (skipLiteral_append hl hv hr)
    rw [List.append_assoc, List.cons_append, List.append_assoc, skipInitialiser?, hequals]
    simp [hliteral, hs, hsuffix, hskip]

/-- An initialiser does not continue the name in front of it, and neither does what follows. -/
theorem InitialiserPart.ends_name {i : Text} (hi : InitialiserPart i) (hv : Blanks v) (hr : EndsEnumerator r) :
    ∀ c ∈ (i ++ (v ++ r)).head?, isWord c = false := by
  have hblank : ∀ {w : Text}, Blanks w → ∀ c ∈ w, isWord c = false := fun hw c hc =>
    isWord_eq_false_of_isBlank (hw c hc)
  cases hi with
  | absent =>
    rw [List.nil_append]
    refine forall_head?_append (hblank hv) fun _ c hc => ?_
    rcases hr c hc with rfl | rfl <;> exact isWord_delimiter (by decide)
  | present hw _ _ =>
    rw [List.append_assoc]
    exact forall_head?_append (hblank hw) fun _ => forall_head?_cons (isWord_delimiter (by decide)) _

end Initialisers

/-! ## Enumerators and member lines -/

section Members

variable {name s w : Text}

/-- A name is a member if the text behind it ends an enumerator. -/
theorem memberName?_append (hw : Blanks w) (hn : MemberName name) (hs : ∀ c ∈ s.head?, isWord c = false)
    (hend : endsEnumerator s = true) : memberName? (w ++ (name ++ s)) = some name := by
  have hhead : ∀ c ∈ (name ++ s).head?, isBlank c = false :=
    forall_head?_append (fun c hc => isBlank_eq_false_of_isWord (hn.2 c hc)) fun h => absurd h hn.1
  have hskip : skipBlanks (w ++ (name ++ s)) = name ++ s := skipBlanks_append_of_head hw hhead
  have htake := takeWhile_append_of_head hn.2 hs
  have hdrop := dropWhile_append_of_head hn.2 hs
  simp [memberName?, enumerator?, hskip, htake, hdrop, hn.1, hend]

/-- A name is a member if an initialiser, a comma and a comment stand behind it, or some of them. -/
theorem memberName?_initialised {i v r : Text} (hw : Blanks w) (hn : MemberName name) (hi : InitialiserPart i)
    (hv : Blanks v) (hr : EndsEnumerator r) (hend : endsEnumerator (i ++ (v ++ r)) = true) :
    memberName? (w ++ (name ++ (i ++ v)) ++ r) = some name := by
  simpa using memberName?_append hw hn (hi.ends_name hv hr) hend

/-- A line for a member declares it. -/
theorem memberName?_memberLine (h : MemberLine name s) : memberName? s = some name := by
  obtain @⟨t, k, w, c, ht, hk, hw, hc⟩ := h
  obtain @⟨x, i, v, hx, hn, hi, hv⟩ := ht
  have hcomment : EndsEnumerator c := fun d hd => Or.inr (hc.head d hd)
  cases hk with
  | absent =>
    have hvw : Blanks (v ++ w) := fun d hd => (List.mem_append.mp hd).elim (hv d) (hw d)
    have hskip := skipInitialiser?_append hi hvw hcomment
    have htrail : isTrailing c = true := isTrailing_append (w := []) (by simp [Blanks]) hc
    have hend : endsEnumerator (i ++ (v ++ w ++ c)) = true := by
      rw [endsEnumerator, hskip]
      cases hc with
      | absent => rfl
      | present _ => exact htrail
    simpa using memberName?_initialised hx hn hi hvw hcomment hend
  | present =>
    have hcomma : EndsEnumerator (',' :: (w ++ c)) := forall_head?_cons (Or.inl rfl) _
    have hend : endsEnumerator (i ++ (v ++ ',' :: (w ++ c))) = true := by
      rw [endsEnumerator, skipInitialiser?_append hi hv hcomma]
      exact isTrailing_append hw hc
    exact memberName?_initialised hx hn hi hv hcomma hend

/-- An enumerator declares its member. -/
theorem memberName?_enumerator (h : Enumerator name s) : memberName? s = some name := by
  have hline : MemberLine name (s ++ ([] ++ ([] ++ []))) := .mk h .absent (by simp [Blanks]) .absent
  simpa using memberName?_memberLine hline

/-- A member is a name with nothing but white space in front of it. -/
theorem enumerator?_eq_some {e m : Excerpt} (h : enumerator? e = some m) :
    ∃ w r, Blanks w ∧ MemberName m.text ∧ e.text = w ++ m.text ++ r ∧ m.start = e.start + byteLength w := by
  simp only [enumerator?] at h
  split at h
  · rename_i hname
    obtain rfl := Option.some.inj h
    refine ⟨e.text.takeWhile isBlank, (skipBlanks e.text).dropWhile isWord, ?_, ⟨hname.1, ?_⟩, ?_, rfl⟩
    · exact fun c hc => List.all_eq_true.mp List.all_takeWhile c hc
    · exact fun c hc => List.all_eq_true.mp List.all_takeWhile c hc
    · rw [List.append_assoc, List.takeWhile_append_dropWhile, skipBlanks, List.takeWhile_append_dropWhile]
  · cases h

/-- A text that starts with no word declares no member. -/
theorem memberName?_eq_none (hw : Blanks w) (hs : ∀ c ∈ s.head?, isBlank c = false ∧ isWord c = false) :
    memberName? (w ++ s) = none := by
  have hskip : skipBlanks (w ++ s) = s := skipBlanks_append_of_head hw fun c hc => (hs c hc).1
  have htake : s.takeWhile isWord = [] := by
    simpa using takeWhile_append_of_head (w := []) (by simp) fun c hc => (hs c hc).2
  simp [memberName?, enumerator?, hskip, htake]

end Members

/-! ## The characters of an enumerator -/

section Characters

variable {name s : Text}

/-- Whether a character may stand in an enumerator. -/
def isEnumeratorChar (c : Char) : Bool := isBlank c || isWord c || ['=', '+', '-', '\''].contains c

/-- The digits of hexadecimal numbers are word characters, apart from the apostrophe. -/
theorem isWord_of_isHexDigit {c : Char} (h : isHexDigit c = true) : isWord c = true ∨ c = '\'' := by
  have hc : ((48 ≤ c.toNat ∧ c.toNat ≤ 57 ∨ 97 ≤ c.toNat ∧ c.toNat ≤ 102) ∨ 65 ≤ c.toNat ∧ c.toNat ≤ 70) ∨
      c = '\'' := by
    simpa [isHexDigit, Char.le_def, UInt32.le_iff_toNat_le] using h
  rcases hc with ((⟨h1, h2⟩ | h) | h) | h
  · exact Or.inl (isWord_of_isDigit (inRanges_of_mem (.head _) h1 h2))
  · exact Or.inl (isWord_of_isAlpha (isAlpha_iff.mpr (by omega)))
  · exact Or.inl (isWord_of_isAlpha (isAlpha_iff.mpr (by omega)))
  · exact Or.inr h

/-- A word may stand in an enumerator, and so may an apostrophe. -/
theorem isEnumeratorChar_of_isWord {c : Char} (h : isWord c = true ∨ c = '\'') : isEnumeratorChar c = true := by
  rcases h with h | rfl
  · simp [isEnumeratorChar, h]
  · simp [isEnumeratorChar]

/-- The letters and the digits of hexadecimal numbers may stand in an enumerator. -/
theorem isEnumeratorChar_of_isHexDigit {c : Char} (h : c.isAlpha = true ∨ isHexDigit c = true) :
    isEnumeratorChar c = true := by
  rcases h with h | h
  · exact isEnumeratorChar_of_isWord (Or.inl (isWord_of_isAlpha h))
  · exact isEnumeratorChar_of_isWord (isWord_of_isHexDigit h)

/-- The digits of a literal may stand in an enumerator. -/
theorem Digits.enumeratorChar (h : Digits s) : ∀ c ∈ s, isEnumeratorChar c = true := by
  have hzero : isEnumeratorChar '0' = true := isEnumeratorChar_of_isHexDigit (Or.inr (by decide))
  cases h with
  | decimal hd hs =>
    refine List.forall_mem_cons.mpr ⟨isEnumeratorChar_of_isWord (Or.inl (isWord_of_isDigit hd)), fun c hc => ?_⟩
    have hdigit : isDigit c = true ∨ c = '\'' := by simpa [isDecimalDigit] using hs c hc
    exact isEnumeratorChar_of_isWord (hdigit.imp_left isWord_of_isDigit)
  | hexadecimal hx _ hs =>
    refine List.forall_mem_cons.mpr ⟨hzero, List.forall_mem_cons.mpr ⟨?_, fun c hc => ?_⟩⟩
    · rcases hx with rfl | rfl <;> exact isEnumeratorChar_of_isHexDigit (Or.inl rfl)
    · exact isEnumeratorChar_of_isHexDigit (Or.inr (hs c hc))
  | binary hb _ hs =>
    refine List.forall_mem_cons.mpr ⟨hzero, List.forall_mem_cons.mpr ⟨?_, fun c hc => ?_⟩⟩
    · rcases hb with rfl | rfl <;> exact isEnumeratorChar_of_isHexDigit (Or.inl rfl)
    · exact isEnumeratorChar_of_isHexDigit (Or.inr (isHexDigit_of_isBinaryDigit (hs c hc)))

/-- A literal may stand in an enumerator. -/
theorem Literal.enumeratorChar (h : Literal s) : ∀ c ∈ s, isEnumeratorChar c = true := by
  obtain @⟨sign, digits, suffix, hsign, hdigits, hsuffix⟩ := h
  have hs : ∀ c ∈ sign, isEnumeratorChar c = true := by
    cases hsign <;> simp [isEnumeratorChar]
  have hl : ∀ c ∈ suffix, isEnumeratorChar c = true := by
    intro c hc
    have hc : ((c = 'u' ∨ c = 'U') ∨ c = 'l') ∨ c = 'L' := by simpa [isSuffix] using hsuffix c hc
    rcases hc with ((rfl | rfl) | rfl) | rfl <;> exact isEnumeratorChar_of_isHexDigit (Or.inl rfl)
  exact List.forall_mem_append.mpr ⟨hs, List.forall_mem_append.mpr ⟨hdigits.enumeratorChar, hl⟩⟩

/-- An enumerator has no characters but white space, words, an equals sign, signs and apostrophes. -/
theorem Enumerator.enumeratorChar (h : Enumerator name s) : ∀ c ∈ s, isEnumeratorChar c = true := by
  obtain @⟨w, i, v, hw, hn, hi, hv⟩ := h
  have hblank : ∀ {w : Text}, Blanks w → ∀ c ∈ w, isEnumeratorChar c = true := by
    intro w hw c hc
    simp [isEnumeratorChar, hw c hc]
  have hname : ∀ c ∈ name, isEnumeratorChar c = true := fun c hc =>
    isEnumeratorChar_of_isWord (Or.inl (hn.2 c hc))
  have hinit : ∀ c ∈ i, isEnumeratorChar c = true := by
    cases hi with
    | absent => simp
    | present hw hx hl =>
      exact List.forall_mem_append.mpr ⟨hblank hw, List.forall_mem_cons.mpr
        ⟨by simp [isEnumeratorChar], List.forall_mem_append.mpr ⟨hblank hx, hl.enumeratorChar⟩⟩⟩
  exact List.forall_mem_append.mpr ⟨hblank hw, List.forall_mem_append.mpr
    ⟨hname, List.forall_mem_append.mpr ⟨hinit, hblank hv⟩⟩⟩

/-- No comma and no closing brace stands in an enumerator. -/
theorem Enumerator.notMem (h : Enumerator name s) : ',' ∉ s ∧ '}' ∉ s := by
  have hno : ∀ {c : Char}, isBlank c = false → c ∈ delimiters → c ∉ ['=', '+', '-', '\''] → c ∉ s := by
    intro c hblank hword hother hc
    have hchar := h.enumeratorChar c hc
    simp only [isEnumeratorChar, hblank, isWord_delimiter hword, Bool.false_or, List.contains_iff_mem] at hchar
    exact hother hchar
  exact ⟨hno (by decide) (by decide) (by decide), hno (by decide) (by decide) (by decide)⟩

end Characters

end EnumStrings
