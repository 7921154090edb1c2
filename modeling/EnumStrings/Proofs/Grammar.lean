import EnumStrings.Enumeration

/-!
# How enums are written

The texts in which declarations and enumerators come, as predicates that do not mention the functions that read them.

- A declaration line starts with a head (`Head`): `enum`, perhaps a qualifier, the name, perhaps an underlying type.
- An enumerator (`Enumerator`) is a name, perhaps with an initialiser; on a line of its own (`MemberLine`) it may be
  followed by a comma and a comment.
- White space may stand around every token.

A reader that takes as much as it can stops where the next token starts, if that starts with a character of another
kind (`takeWhile_append_of_head`, `dropWhile_append_of_head`). So white space is skipped up to the token behind it
(`skipBlanks_append_of_head`), and white space with a comment ends a line (`isTrailing_append`).
-/

namespace EnumStrings

/-! ## White space and comments -/

/-- White space, perhaps none. -/
def Blanks (w : Text) : Prop := ∀ c ∈ w, isBlank c = true

instance (w : Text) : Decidable (Blanks w) := List.decidableBAll (isBlank · = true) w

/-- A comment, or nothing. -/
inductive CommentPart : Text → Prop
  | absent : CommentPart []
  | present {c : Text} : '\n' ∉ c → CommentPart ('/' :: '/' :: c)

/-! ## Declaration lines -/

/-- The name of an enum: a letter from A to Z in either case, and word characters behind it. -/
inductive EnumName : Text → Prop
  | mk {c : Char} {s : Text} : c.isAlpha = true → (∀ d ∈ s, isWord d = true) → EnumName (c :: s)

/-- A qualifier with white space in front, or nothing. -/
inductive QualifierPart : Text → Prop
  | absent : QualifierPart []
  | present {w q : Text} : Blanks w → w ≠ [] → q ∈ qualifiers → QualifierPart (w ++ q)

/-- A word of an underlying type. -/
inductive TypeWord : Text → Prop
  | mk {c : Char} {s : Text} : isTypeStart c = true → (∀ d ∈ s, isTypeChar d = true) → TypeWord (c :: s)

/-- Words of an underlying type with white space between them. -/
inductive TypeWords : Text → Prop
  | one {t : Text} : TypeWord t → TypeWords t
  | more {t w s : Text} : TypeWord t → Blanks w → w ≠ [] → TypeWords s → TypeWords (t ++ w ++ s)

/-- A colon and an underlying type, or nothing. -/
inductive UnderlyingPart : Text → Prop
  | absent : UnderlyingPart []
  | present {w v t : Text} : Blanks w → Blanks v → TypeWords t → UnderlyingPart (w ++ ':' :: (v ++ t))

/-- What a declaration line of the enum `name` starts with. -/
inductive Head (name : Text) : Text → Prop
  | mk {w q v u : Text} : Blanks w → QualifierPart q → Blanks v → v ≠ [] → EnumName name → UnderlyingPart u →
      Head name (w ++ ("enum".toList ++ (q ++ (v ++ (name ++ u)))))

/-- A semicolon with white space in front, or nothing. -/
inductive SemicolonPart : Text → Prop
  | absent : SemicolonPart []
  | present {w : Text} : Blanks w → SemicolonPart (w ++ [';'])

/-! ## Enumerators -/

/-- The name of a member: word characters. -/
def MemberName (s : Text) : Prop := s ≠ [] ∧ ∀ c ∈ s, isWord c = true

/-- The digits of an integer literal, with apostrophes among them. -/
inductive Digits : Text → Prop
  | decimal {d : Char} {s : Text} : isDigit d = true → (∀ c ∈ s, isDecimalDigit c = true) → Digits (d :: s)
  | hexadecimal {x : Char} {s : Text} : x = 'x' ∨ x = 'X' → s ≠ [] → (∀ c ∈ s, isHexDigit c = true) →
      Digits ('0' :: x :: s)
  | binary {b : Char} {s : Text} : b = 'b' ∨ b = 'B' → s ≠ [] → (∀ c ∈ s, isBinaryDigit c = true) →
      Digits ('0' :: b :: s)

/-- A sign, or nothing. -/
inductive SignPart : Text → Prop
  | absent : SignPart []
  | plus : SignPart ['+']
  | minus : SignPart ['-']

/-- An integer literal: a sign, digits, and letters for the type. -/
inductive Literal : Text → Prop
  | mk {sign digits suffix : Text} : SignPart sign → Digits digits → (∀ c ∈ suffix, isSuffix c = true) →
      Literal (sign ++ (digits ++ suffix))

/-- An equals sign and a literal, or nothing. -/
inductive InitialiserPart : Text → Prop
  | absent : InitialiserPart []
  | present {w v l : Text} : Blanks w → Blanks v → Literal l → InitialiserPart (w ++ '=' :: (v ++ l))

/-- The member `name`, perhaps with an initialiser. -/
inductive Enumerator (name : Text) : Text → Prop
  | mk {w i v : Text} : Blanks w → MemberName name → InitialiserPart i → Blanks v →
      Enumerator name (w ++ (name ++ (i ++ v)))

/-- A comma, or nothing. -/
inductive CommaPart : Text → Prop
  | absent : CommaPart []
  | present : CommaPart [',']

/-- A line for the member `name`: an enumerator, perhaps a comma, perhaps a comment. -/
inductive MemberLine (name : Text) : Text → Prop
  | mk {t k w c : Text} : Enumerator name t → CommaPart k → Blanks w → CommentPart c →
      MemberLine name (t ++ (k ++ (w ++ c)))

/-! ## Runs -/

section Runs

variable {α : Type} {p : α → Bool} {w s : List α}

/-- A run ends where something of another kind starts. -/
theorem takeWhile_append_of_head (hw : ∀ c ∈ w, p c = true) (hs : ∀ c ∈ s.head?, p c = false) :
    (w ++ s).takeWhile p = w := by
  rw [List.takeWhile_append_of_pos hw]
  cases s with
  | nil => simp
  | cons c s => simp [hs c rfl]

/-- What follows a run starts with something of another kind. -/
theorem dropWhile_append_of_head (hw : ∀ c ∈ w, p c = true) (hs : ∀ c ∈ s.head?, p c = false) :
    (w ++ s).dropWhile p = s := by
  rw [List.dropWhile_append_of_pos hw]
  cases s with
  | nil => rfl
  | cons c s => simp [hs c rfl]

/-- The first character of a text that is given by it. -/
theorem forall_head?_cons {P : Char → Prop} {c : Char} (hc : P c) (s : Text) : ∀ d ∈ (c :: s).head?, P d := by
  intro d hd
  obtain rfl : c = d := by simpa using hd
  exact hc

/-- The first character of a concatenation is that of the first part, or that of the second if the first is empty. -/
theorem forall_head?_append {P : Char → Prop} {w s : Text} (hw : ∀ c ∈ w, P c) (hs : w = [] → ∀ c ∈ s.head?, P c) :
    ∀ c ∈ (w ++ s).head?, P c := by
  cases w with
  | nil => exact hs rfl
  | cons d w => exact forall_head?_cons (hw d List.mem_cons_self) _

/-- What is left behind a run starts with something else. -/
theorem head_dropWhile (p : Char → Bool) (s : Text) : ∀ c ∈ (s.dropWhile p).head?, p c = false := by
  intro c hc
  have hnot := List.head?_dropWhile_not p s
  rw [hc] at hnot
  simpa using hnot

/-- A run ends in front of a character that does not occur in it. -/
theorem forall_ne_of_notMem {d : Char} {s : Text} (h : d ∉ s) : ∀ c ∈ s, (c != d) = true := by
  intro c hc
  have hne : c ≠ d := by
    rintro rfl
    exact h hc
  simpa using hne

/-- A name ends at the first character that it does not hold. -/
theorem span_append_of_head {d : Char} {s r : Text} (hs : d ∉ s) (hr : r.head? = some d) :
    (s ++ r).takeWhile (· != d) = s ∧ (s ++ r).dropWhile (· != d) = r := by
  have hrun : ∀ c ∈ s, (c != d) = true := forall_ne_of_notMem hs
  have hend : ∀ c ∈ r.head?, (c != d) = false := by
    intro c hc
    obtain rfl : d = c := by simpa [hr] using hc
    simp
  exact ⟨takeWhile_append_of_head hrun hend, dropWhile_append_of_head hrun hend⟩

/-- What stands in front of a character for the first time is told by what follows. -/
theorem append_inj_of_head {d : Char} {x y s t : Text} (hx : d ∉ x) (hy : d ∉ y) (hs : s.head? = some d)
    (ht : t.head? = some d) (h : x ++ s = y ++ t) : x = y ∧ s = t := by
  obtain ⟨htake, hdrop⟩ := span_append_of_head hx hs
  obtain ⟨htake', hdrop'⟩ := span_append_of_head hy ht
  constructor
  · rw [← htake, h, htake']
  · rw [← hdrop, h, hdrop']

/-- What holds no `d` ends in front of any `d`. -/
theorem exists_cut {d : Char} {f t x s : Text} (hf : d ∉ f) (h : t ++ d :: s = f ++ x) :
    ∃ y, t = f ++ y ∧ x = y ++ d :: s := by
  rcases List.append_eq_append_iff.mp h with ⟨a, hfa, hsa⟩ | ⟨a, hta, hxa⟩
  · cases a with
    | nil => exact ⟨[], by simpa using hfa.symm, by simpa using hsa.symm⟩
    | cons e a =>
      obtain ⟨rfl, -⟩ := List.cons.inj hsa
      exact absurd (hfa ▸ List.mem_append_right t List.mem_cons_self) hf
  · exact ⟨a, hta, hxa⟩

end Runs

/-! ## Kinds of characters -/

/-- What holds of every character of white space can be checked one by one. -/
theorem forall_isBlank {P : Char → Prop} (h : ∀ n ∈ codePoints blankRanges, P (Char.ofNat n)) :
    ∀ c, isBlank c = true → P c := by
  intro c hc
  have hn := h c.toNat (inRanges_iff.mp hc)
  rwa [Char.ofNat_toNat] at hn

/-- Letters are no white space. -/
theorem isBlank_eq_false_of_isWord {c : Char} (h : isWord c = true) : isBlank c = false := by
  cases hb : isBlank c with
  | false => rfl
  | true => rw [isWord_eq_false_of_isBlank hb] at h; cases h

/-- The characters that part words, apart from white space. -/
def delimiters : Text := ['"', '\'', '+', ',', '-', '/', ':', ';', '=', '\\', '{', '}']

/-- No word holds a character that parts words. -/
theorem isWord_delimiter {c : Char} (h : c ∈ delimiters) : isWord c = false := by
  have hall : delimiters.any isWord = false := by decide +kernel
  exact Bool.not_eq_true _ ▸ List.any_eq_false.mp hall c h

theorem ne_of_isWord {c d : Char} (hc : isWord c = true) (hd : isWord d = false) : c ≠ d := by
  rintro rfl
  rw [hc] at hd
  cases hd
/-- Only the colon of these stands in an underlying type. -/
theorem isTypeChar_delimiter {c : Char} (h : c ∈ delimiters) (hc : c ≠ ':') : isTypeChar c = false := by
  simp [isTypeChar, isWord_delimiter h, hc]

/-- A character that is in no word is no letter from A to Z. -/
theorem isAlpha_eq_false_of_isWord {c : Char} (h : isWord c = false) : c.isAlpha = false := by
  cases ha : c.isAlpha with
  | false => rfl
  | true => rw [isWord_of_isAlpha ha] at h; cases h

/-- The underlying type ends where white space starts. -/
theorem isTypeChar_eq_false_of_isBlank {c : Char} (h : isBlank c = true) : isTypeChar c = false := by
  have hc : c ≠ ':' := by rintro rfl; exact absurd h (by decide)
  simp [isTypeChar, isWord_eq_false_of_isBlank h, hc]

/-- A type holds no white space but between its words. -/
theorem isBlank_eq_false_of_isTypeChar {c : Char} (h : isTypeChar c = true) : isBlank c = false := by
  cases hb : isBlank c with
  | false => rfl
  | true => rw [isTypeChar_eq_false_of_isBlank hb] at h; cases h

/-- A type starts with no white space. -/
theorem isBlank_eq_false_of_isTypeStart {c : Char} (h : isTypeStart c = true) : isBlank c = false :=
  isBlank_eq_false_of_isTypeChar (isTypeChar_of_isTypeStart h)

/-! ## Reading white space and comments -/

section Blanks

variable {w s : Text}

/-- Nothing but white space stands in white space. -/
theorem Blanks.notMem (hw : Blanks w) {c : Char} (hc : isBlank c = false) : c ∉ w := by
  intro h
  rw [hw c h] at hc
  cases hc

/-- White space in front of a text is skipped. -/
theorem skipBlanks_append (hw : Blanks w) (s : Text) : skipBlanks (w ++ s) = skipBlanks s :=
  List.dropWhile_append_of_pos hw

/-- Nothing is skipped in front of a character other than white space. -/
theorem skipBlanks_eq_self (hs : ∀ c ∈ s.head?, isBlank c = false) : skipBlanks s = s := by
  cases s with
  | nil => rfl
  | cons c s => simp [skipBlanks, hs c rfl]

/-- White space is skipped as a whole. -/
theorem skipBlanks_skipBlanks (s : Text) : skipBlanks (skipBlanks s) = skipBlanks s :=
  skipBlanks_eq_self (head_dropWhile isBlank s)

theorem skipBlanks_cons {c : Char} (hc : isBlank c = true) (s : Text) : skipBlanks (c :: s) = skipBlanks s :=
  List.dropWhile_cons_of_pos hc

/-- White space is skipped up to another character. -/
theorem skipBlanks_append_of_head (hw : Blanks w) (hs : ∀ c ∈ s.head?, isBlank c = false) :
    skipBlanks (w ++ s) = s := by
  rw [skipBlanks_append hw, skipBlanks_eq_self hs]

/-- Required white space is skipped like all other, if there is any. -/
theorem skipSomeBlanks?_append (hw : Blanks w) (hne : w ≠ []) (s : Text) :
    skipSomeBlanks? (w ++ s) = some (skipBlanks s) := by
  cases w with
  | nil => exact absurd rfl hne
  | cons c w =>
    have hc : isBlank c = true := hw c List.mem_cons_self
    have hw' : Blanks w := fun d hd => hw d (List.mem_cons_of_mem c hd)
    simp [skipSomeBlanks?, hc, skipBlanks_append hw']

/-- A comment is a slash or nothing at its front. -/
theorem CommentPart.head {c : Text} (h : CommentPart c) : ∀ d ∈ c.head?, d = '/' := by
  cases h with
  | absent => simp
  | present _ => simp

/-- White space is skipped up to a comment. -/
theorem skipBlanks_comment {c : Text} (hw : Blanks w) (hc : CommentPart c) : skipBlanks (w ++ c) = c := by
  refine skipBlanks_append_of_head hw ?_
  intro d hd
  rw [hc.head d hd]
  decide

/-- A line may end with white space and a comment. -/
theorem isTrailing_append {c : Text} (hw : Blanks w) (hc : CommentPart c) : isTrailing (w ++ c) = true := by
  rw [isTrailing, skipBlanks_comment hw hc]
  cases hc with
  | absent => rfl
  | present h => simp [isComment, h]

end Blanks

end EnumStrings
