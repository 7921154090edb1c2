import Mathlib.Data.List.Forall2
import Mathlib.Data.List.TakeWhile
import EnumStrings.Proofs.DeclarationShape

/-!
# White space around a line is invisible

A text and the same text with white space behind it (`Padded`) are read alike. Every reader takes the same from both and
leaves two texts of which one is again the other with white space behind it: this is what each step keeps, from the
white space in front of a token (`Padded.skipBlanks`) to the members behind a brace, the last of which may end with the
line (`Padded.inlineBody?`). White space in front of a line is skipped by both. So a line declares the same enum
(`ofLine?_alike`) and the same member (`memberName?_alike`) as the line without white space around it.
-/

namespace EnumStrings

/-- The second text is the first one with white space behind it, in which no line ends. -/
inductive Padded : Text → Text → Prop
  | blanks {v : Text} : Blanks v → '\n' ∉ v → Padded [] v
  | cons (c : Char) {s t : Text} : Padded s t → Padded (c :: s) (c :: t)

/-! ## Runs of characters -/

section Runs

variable {s t v : Text} {p : Char → Bool}

theorem padded_append (s : Text) (hv : Blanks v) (hn : '\n' ∉ v) : Padded s (s ++ v) := by
  induction s with
  | nil => exact .blanks hv hn
  | cons c s ih => exact .cons c ih

/-- What is left behind a run of white space is white space. -/
theorem Blanks.dropWhile (hv : Blanks v) (p : Char → Bool) : Blanks (v.dropWhile p) := fun c hc =>
  hv c ((List.dropWhile_suffix p).subset hc)

theorem Padded.dropWhile (h : Padded s t) (p : Char → Bool) : Padded (s.dropWhile p) (t.dropWhile p) := by
  induction h with
  | blanks hv hn => exact .blanks (hv.dropWhile p) fun h => hn ((List.dropWhile_suffix p).subset h)
  | @cons c s t h ih =>
    rw [List.dropWhile_cons, List.dropWhile_cons]
    split
    · exact ih
    · exact .cons c h

/-- A run of anything but white space ends within the text. -/
theorem Padded.takeWhile (h : Padded s t) (hp : ∀ c, isBlank c = true → p c = false) :
    t.takeWhile p = s.takeWhile p := by
  induction h with
  | @blanks v hv hn =>
    cases v with
    | nil => rfl
    | cons c v => rw [List.takeWhile_cons, hp c (hv c List.mem_cons_self)]; rfl
  | cons c h ih => rw [List.takeWhile_cons, List.takeWhile_cons, ih]

theorem Padded.drop (h : Padded s t) (n : Nat) : Padded (s.drop n) (t.drop n) := by
  induction n generalizing s t with
  | zero => exact h
  | succ n ih =>
    cases h with
    | blanks hv hn => exact .blanks (fun c hc => hv c (List.mem_of_mem_drop hc)) fun h => hn (List.mem_of_mem_drop h)
    | cons c h => exact ih h

/-- A run that white space continues ends at the same character, or with the text. -/
theorem Padded.span (h : Padded s t) (hp : ∀ c, isBlank c = true → p c = true) :
    (s.dropWhile p = [] ∧ t.dropWhile p = [] ∧ Padded (s.takeWhile p) (t.takeWhile p)) ∨
      ∃ c r u, s.dropWhile p = c :: r ∧ t.dropWhile p = c :: u ∧ Padded r u ∧ t.takeWhile p = s.takeWhile p := by
  induction h with
  | @blanks v hv hn =>
    have hrun : ∀ c ∈ v, p c = true := fun c hc => hp c (hv c hc)
    refine Or.inl ⟨rfl, ?_, ?_⟩
    · exact List.dropWhile_eq_nil_iff.mpr hrun
    · rw [List.takeWhile_eq_self_iff.mpr hrun]
      exact .blanks hv hn
  | @cons c s t h ih =>
    rw [List.dropWhile_cons, List.dropWhile_cons, List.takeWhile_cons, List.takeWhile_cons]
    by_cases hc : p c = true
    · rw [if_pos hc, if_pos hc, if_pos hc, if_pos hc]
      rcases ih with ⟨hs, ht, hpadded⟩ | ⟨d, r, u, hs, ht, hpadded, htake⟩
      · exact Or.inl ⟨hs, ht, .cons c hpadded⟩
      · exact Or.inr ⟨d, r, u, hs, ht, hpadded, by rw [htake]⟩
    · rw [if_neg hc, if_neg hc, if_neg hc, if_neg hc]
      exact Or.inr ⟨c, s, t, rfl, rfl, h, rfl⟩

/-- A text starts with what it starts with when white space stands behind it. -/
theorem Padded.cons_left {c : Char} (h : Padded (c :: s) t) : ∃ u, t = c :: u ∧ Padded s u := by
  cases h with
  | cons _ h => exact ⟨_, rfl, h⟩

/-- A character other than white space is not one of those behind the text. -/
theorem Padded.cons_right {c : Char} (h : Padded s (c :: t)) (hc : isBlank c = false) :
    ∃ r, s = c :: r ∧ Padded r t := by
  cases h with
  | blanks hv _ =>
    rw [hv c List.mem_cons_self] at hc
    cases hc
  | cons _ h => exact ⟨_, rfl, h⟩

/-- No line feed is among the white space behind a text. -/
theorem Padded.mem_newline_iff (h : Padded s t) : '\n' ∈ t ↔ '\n' ∈ s := by
  induction h with
  | blanks _ hn => exact iff_of_false hn List.not_mem_nil
  | cons c _ ih => rw [List.mem_cons, List.mem_cons, ih]

theorem padded_refl (s : Text) : Padded s s := by
  induction s with
  | nil => exact .blanks (by simp [Blanks]) List.not_mem_nil
  | cons c s ih => exact .cons c ih

end Runs

/-! ## Two readings -/

section Readings

variable {α β γ δ : Type} {R : α → β → Prop} {Q : γ → δ → Prop} {s t v : Text}

/-- Two readings go on alike if what follows is alike wherever they agree. -/
theorem rel_bind {x : Option α} {y : Option β} {f : α → Option γ} {g : β → Option δ} (h : Option.Rel R x y)
    (hfg : ∀ a b, R a b → Option.Rel Q (f a) (g b)) : Option.Rel Q (x.bind f) (y.bind g) := by
  cases h with
  | some h => exact hfg _ _ h
  | none => exact .none

theorem rel_map {x : Option α} {y : Option β} {f : α → γ} {g : β → δ} (h : Option.Rel R x y)
    (hfg : ∀ a b, R a b → Q (f a) (g b)) : Option.Rel Q (x.map f) (y.map g) := by
  cases h with
  | some h => exact .some (hfg _ _ h)
  | none => exact .none

theorem rel_refl {P : α → α → Prop} (hP : ∀ a, P a a) (x : Option α) : Option.Rel P x x := by
  cases x with
  | some a => exact .some (hP a)
  | none => exact .none

theorem rel_getD {x : Option α} {y : Option β} {a : α} {b : β} (h : Option.Rel R x y) (hab : R a b) :
    R (x.getD a) (y.getD b) := by
  cases h with
  | some h => exact h
  | none => exact hab

theorem eq_none_of_rel {x : Option α} (h : Option.Rel R x (none : Option β)) : x = none := by
  cases h
  rfl

theorem exists_of_rel {x : Option α} {b : β} (h : Option.Rel R x (some b)) : ∃ a, x = some a ∧ R a b := by
  cases h with
  | some h => exact ⟨_, rfl, h⟩

/-- The same is read, and two texts are left of which one is the other with white space behind it. -/
def SameRest (p q : Text × Text) : Prop := p.1 = q.1 ∧ Padded p.2 q.2

theorem skipBlanks_eq_nil (hv : Blanks v) : skipBlanks v = [] :=
  List.dropWhile_eq_nil_iff.mpr hv

/-- White space is required in front of what is read; where it is the white space behind the text, nothing is read. -/
theorem Padded.skipSomeBlanks?_bind {f : Text → Option α} {g : Text → Option β} (h : Padded s t)
    (hfg : ∀ r u, Padded r u → Option.Rel R (f r) (g u)) (hnil : g [] = none) :
    Option.Rel R ((skipSomeBlanks? s).bind f) ((skipSomeBlanks? t).bind g) := by
  cases h with
  | blanks hv _ =>
    cases t with
    | nil => exact .none
    | cons c v =>
      have hrest : skipBlanks v = [] := skipBlanks_eq_nil fun d hd => hv d (List.mem_cons_of_mem c hd)
      rw [skipSomeBlanks?, if_pos (hv c List.mem_cons_self), hrest, Option.bind_some, hnil]
      exact .none
  | cons c h =>
    rw [skipSomeBlanks?, skipSomeBlanks?]
    split
    · exact hfg _ _ (h.dropWhile isBlank)
    · exact .none

end Readings

/-! ## White space and comments -/

section Tokens

variable {s t : Text}

theorem Padded.skipBlanks (h : Padded s t) : Padded (skipBlanks s) (skipBlanks t) := h.dropWhile isBlank

/-- Behind skipped white space both texts are at their ends, or at the same character. -/
theorem Padded.skipBlanks_cases (h : Padded s t) :
    (EnumStrings.skipBlanks s = [] ∧ EnumStrings.skipBlanks t = []) ∨ ∃ c r u,
      EnumStrings.skipBlanks s = c :: r ∧ EnumStrings.skipBlanks t = c :: u ∧ Padded r u := by
  rcases h.span (p := isBlank) fun _ hc => hc with ⟨hs, ht, -⟩ | ⟨c, r, u, hs, ht, hrest, -⟩
  · exact Or.inl ⟨hs, ht⟩
  · exact Or.inr ⟨c, r, u, hs, ht, hrest⟩

theorem Padded.isComment (h : Padded s t) : isComment t = isComment s := by
  fun_cases EnumStrings.isComment s with
  | case1 s =>
    obtain ⟨u, rfl, hu⟩ := h.cons_left
    obtain ⟨v, rfl, hv⟩ := hu.cons_left
    simp [EnumStrings.isComment, hv.mem_newline_iff]
  | case2 s hnot =>
    unfold EnumStrings.isComment
    split
    · obtain ⟨r, rfl, hr⟩ := h.cons_right (by decide)
      obtain ⟨q, rfl, -⟩ := hr.cons_right (by decide)
      exact absurd rfl (hnot q)
    · rfl

theorem Padded.isTrailing (h : Padded s t) : isTrailing t = isTrailing s := by
  unfold EnumStrings.isTrailing
  rw [h.skipBlanks.isComment]
  rcases h.skipBlanks_cases with ⟨hs, ht⟩ | ⟨c, r, u, hs, ht, -⟩
  · rw [hs, ht]
  · rw [hs, ht]
    rfl

end Tokens

/-! ## Declaration lines -/

section Heads

variable {s t : Text}

/-- A keyword without white space in it is not continued by white space. -/
theorem Padded.keyword? {word : Text} (hw : ∀ c ∈ word, isBlank c = false) (h : Padded s t) :
    Option.Rel Padded (keyword? word s) (keyword? word t) := by
  induction word generalizing s t with
  | nil => exact .some h
  | cons k word ih =>
    obtain ⟨hk, hword⟩ := List.forall_mem_cons.mp hw
    cases h with
    | blanks hv _ =>
      cases t with
      | nil => exact .none
      | cons c v =>
        have hne : k ≠ c := by
          rintro rfl
          rw [hv k List.mem_cons_self] at hk
          cases hk
        rw [EnumStrings.keyword?, EnumStrings.keyword?, if_neg hne]
        exact .none
    | cons c h =>
      rw [EnumStrings.keyword?, EnumStrings.keyword?]
      split
      · exact ih hword h
      · exact .none

theorem Padded.identifier? (h : Padded s t) : Option.Rel SameRest (identifier? s) (identifier? t) := by
  cases h with
  | blanks hv _ =>
    cases t with
    | nil => exact .none
    | cons c v =>
      have hc : ¬ c.isAlpha = true := by
        rw [isAlpha_eq_false_of_isWord (isWord_eq_false_of_isBlank (hv c List.mem_cons_self))]
        exact Bool.false_ne_true
      rw [EnumStrings.identifier?, EnumStrings.identifier?, if_neg hc]
      exact .none
  | cons c h =>
    rw [EnumStrings.identifier?, EnumStrings.identifier?]
    split
    · have hall := Padded.cons c h
      exact .some ⟨(hall.takeWhile fun d hd => isWord_eq_false_of_isBlank hd).symm, hall.dropWhile isWord⟩
    · exact .none

theorem Padded.declaredName? (h : Padded s t) : Option.Rel SameRest (declaredName? s) (declaredName? t) := by
  refine rel_bind h.identifier? ?_
  rintro ⟨word, r⟩ ⟨_, u⟩ ⟨rfl, hrest⟩
  -- behind a qualifier's own word the white space may be all that is left, and then no other name comes next
  have hnext : Option.Rel SameRest ((skipSomeBlanks? r).bind EnumStrings.identifier?)
      ((skipSomeBlanks? u).bind EnumStrings.identifier?) :=
    hrest.skipSomeBlanks?_bind (fun _ _ h => h.identifier?) rfl
  dsimp only
  split
  · exact .some (rel_getD hnext ⟨rfl, hrest⟩)
  · exact .some ⟨rfl, hrest⟩

theorem Padded.skipTypeWords (h : Padded s t) : Padded (skipTypeWords s) (skipTypeWords t) := by
  fun_induction EnumStrings.skipTypeWords s generalizing t with
  | case1 =>
    cases t with
    | nil => rw [EnumStrings.skipTypeWords]; exact h
    | cons c v =>
      have hc : ¬ isTypeStart c = true := by
        intro hc
        obtain ⟨r, hr, -⟩ := h.cons_right (isBlank_eq_false_of_isTypeStart hc)
        cases hr
      rw [EnumStrings.skipTypeWords, if_neg hc]
      exact h
  | case2 c s hc ih =>
    obtain ⟨u, rfl, hu⟩ := h.cons_left
    rw [EnumStrings.skipTypeWords, if_pos hc]
    exact ih (hu.dropWhile isTypeChar).skipBlanks
  | case3 c s hc =>
    obtain ⟨u, rfl, -⟩ := h.cons_left
    rw [EnumStrings.skipTypeWords, if_neg hc]
    exact h

theorem Padded.skipUnderlying? (h : Padded s t) : Option.Rel Padded (skipUnderlying? s) (skipUnderlying? t) := by
  have hrest := h.skipBlanks
  unfold EnumStrings.skipUnderlying?
  generalize EnumStrings.skipBlanks s = x at hrest
  generalize EnumStrings.skipBlanks t = y at hrest
  split
  · obtain ⟨u, rfl, hu⟩ := hrest.cons_left
    rcases hu.skipBlanks_cases with ⟨hs, ht⟩ | ⟨c, r, v, hs, ht, htype⟩
    · simp only [hs, ht]
      exact .none
    · simp only [hs, ht]
      split
      · exact .some (Padded.cons c htype).skipTypeWords
      · exact .none
  · rename_i hnot
    split
    · obtain ⟨r, rfl, -⟩ := hrest.cons_right (by decide)
      exact absurd rfl (hnot r)
    · exact .some hrest

end Heads

/-! ## The members behind the brace -/

section Bodies

variable {s t : Text}

theorem Padded.skipSemicolon (h : Padded s t) : Padded (skipSemicolon s) (skipSemicolon t) := by
  have hrest := h.skipBlanks
  unfold EnumStrings.skipSemicolon
  generalize EnumStrings.skipBlanks s = x at hrest
  generalize EnumStrings.skipBlanks t = y at hrest
  split
  · obtain ⟨u, rfl, hu⟩ := hrest.cons_left
    exact hu
  · rename_i hnot
    split
    · obtain ⟨r, rfl, -⟩ := hrest.cons_right (by decide)
      exact absurd rfl (hnot r)
    · exact hrest

/-- The text that holds members is the same where a brace ends it; where the line does, white space may stand behind. -/
theorem Padded.inlineBody? (h : Padded s t) : Option.Rel Padded (inlineBody? s) (inlineBody? t) := by
  have hblank : ∀ c, isBlank c = true → (c != '}') = true := by
    intro c hc
    rw [bne_iff_ne]
    rintro rfl
    exact absurd hc (by decide)
  rcases h.span hblank with ⟨hs, ht, hinside⟩ | ⟨c, r, u, hs, ht, hafter, hinside⟩
  · simp only [EnumStrings.inlineBody?, hs, ht]
    exact .some hinside
  · simp only [EnumStrings.inlineBody?, hs, ht, hinside, hafter.skipSemicolon.isTrailing]
    split
    · exact .some (padded_refl _)
    · have hcomment : ∀ n, EnumStrings.isComment (t.drop n) = EnumStrings.isComment (s.drop n) := fun n =>
        (h.drop n).isComment
      simp only [hcomment]
      exact rel_refl padded_refl _

/-- A list of texts, the last of which has white space behind it, is cut into the same texts. -/
theorem Padded.splitOn (h : Padded s t) : List.Forall₂ Padded (s.splitOn ',') (t.splitOn ',') := by
  induction h with
  | @blanks v hv hn =>
    rw [List.splitOn_nil, List.splitOn_eq_singleton (hv.notMem (by decide))]
    exact .cons (.blanks hv hn) .nil
  | @cons c s t h ih =>
    rw [List.splitOn_cons_eq_if_modifyHead, List.splitOn_cons_eq_if_modifyHead]
    split
    · exact .cons (padded_refl []) ih
    · generalize s.splitOn ',' = xs at ih
      generalize t.splitOn ',' = ys at ih
      cases ih with
      | nil => exact .nil
      | cons hfirst hothers => exact .cons (.cons c hfirst) hothers

end Bodies

/-! ## Enumerators -/

section Enumerators

variable {s t : Text}

theorem Padded.skipSome? {p : Char → Bool} (hp : ∀ c, isBlank c = true → p c = false) (h : Padded s t) :
    Option.Rel Padded (skipSome? p s) (skipSome? p t) := by
  cases h with
  | blanks hv _ =>
    cases t with
    | nil => exact .none
    | cons c v =>
      have hc : ¬ p c = true := by
        rw [hp c (hv c List.mem_cons_self)]
        exact Bool.false_ne_true
      rw [EnumStrings.skipSome?, EnumStrings.skipSome?, if_neg hc]
      exact .none
  | cons c h =>
    rw [EnumStrings.skipSome?, EnumStrings.skipSome?]
    split
    · exact .some (h.dropWhile p)
    · exact .none

theorem Padded.skipSign (h : Padded s t) : Padded (skipSign s) (skipSign t) := by
  unfold EnumStrings.skipSign
  split
  · obtain ⟨u, rfl, hu⟩ := h.cons_left
    exact hu
  · obtain ⟨u, rfl, hu⟩ := h.cons_left
    exact hu
  · rename_i hminus hplus
    split
    · obtain ⟨r, rfl, -⟩ := h.cons_right (by decide)
      exact absurd rfl (hminus r)
    · obtain ⟨r, rfl, -⟩ := h.cons_right (by decide)
      exact absurd rfl (hplus r)
    · exact h

/-- White space is in no literal. -/
theorem Padded.skipDigits? (h : Padded s t) : Option.Rel Padded (skipDigits? s) (skipDigits? t) := by
  have hhex : ∀ c, isBlank c = true → isHexDigit c = false := fun c hc => (not_literal_of_isBlank c hc).1.1
  have hbin : ∀ c, isBlank c = true → isBinaryDigit c = false := by
    intro c hc
    cases hb : isBinaryDigit c with
    | false => rfl
    | true => rw [← hhex c hc, isHexDigit_of_isBinaryDigit hb]
  have hletters : ∀ c ∈ baseLetters, isBlank c = false := by
    intro c hc
    exact Bool.not_eq_true _ ▸ List.any_eq_false.mp (by decide : baseLetters.any isBlank = false) c hc
  fun_cases EnumStrings.skipDigits? s with
  | case1 s | case2 s =>
    obtain ⟨u, rfl, hu⟩ := h.cons_left
    obtain ⟨v, rfl, hv⟩ := hu.cons_left
    exact hv.skipSome? hhex
  | case3 s | case4 s =>
    obtain ⟨u, rfl, hu⟩ := h.cons_left
    obtain ⟨v, rfl, hv⟩ := hu.cons_left
    exact hv.skipSome? hbin
  | case5 c s hx hX hb hB hc =>
    obtain ⟨u, rfl, hu⟩ := h.cons_left
    -- a letter that tells the base is no white space, so it would stand in the text without it as well
    have hbase : c = '0' → ∀ d ∈ u.head?, d ∉ baseLetters := by
      rintro rfl d hd hmem
      obtain ⟨v, rfl⟩ := List.head?_eq_some_iff.mp hd
      obtain ⟨r, rfl, -⟩ := hu.cons_right (hletters d hmem)
      have hd : d = 'x' ∨ d = 'X' ∨ d = 'b' ∨ d = 'B' := by simpa [baseLetters] using hmem
      rcases hd with rfl | rfl | rfl | rfl
      · exact hx r rfl rfl
      · exact hX r rfl rfl
      · exact hb r rfl rfl
      · exact hB r rfl rfl
    rw [skipDigits?_decimal hc hbase]
    exact .some (hu.dropWhile isDecimalDigit)
  | case6 c s _ _ _ _ hc =>
    obtain ⟨u, rfl, -⟩ := h.cons_left
    rw [skipDigits?_eq_none (forall_head?_cons (Bool.not_eq_true _ ▸ hc) u)]
    exact .none
  | case7 =>
    have hhead : ∀ d ∈ t.head?, isDigit d = false := by
      intro d hd
      obtain ⟨v, rfl⟩ := List.head?_eq_some_iff.mp hd
      cases hdigit : isDigit d with
      | false => rfl
      | true =>
        obtain ⟨r, hr, -⟩ := h.cons_right (isBlank_eq_false_of_isWord (isWord_of_isDigit hdigit))
        cases hr
    rw [skipDigits?_eq_none hhead]
    exact .none

theorem Padded.skipInitialiser? (h : Padded s t) : Option.Rel Padded (skipInitialiser? s) (skipInitialiser? t) := by
  have hrest := h.skipBlanks
  unfold EnumStrings.skipInitialiser?
  generalize EnumStrings.skipBlanks s = x at hrest
  generalize EnumStrings.skipBlanks t = y at hrest
  split
  · obtain ⟨u, rfl, hu⟩ := hrest.cons_left
    exact rel_map hu.skipBlanks.skipSign.skipDigits? fun _ _ hliteral => (hliteral.dropWhile isSuffix).skipBlanks
  · rename_i hnot
    split
    · obtain ⟨r, rfl, -⟩ := hrest.cons_right (by decide)
      exact absurd rfl (hnot r)
    · exact .some hrest

/-- White space behind an enumerator ends it as well as the text does. -/
theorem Padded.endsEnumerator (h : Padded s t) : endsEnumerator t = endsEnumerator s := by
  have hinitialiser := h.skipInitialiser?
  unfold EnumStrings.endsEnumerator
  generalize EnumStrings.skipInitialiser? s = x at hinitialiser
  generalize EnumStrings.skipInitialiser? t = y at hinitialiser
  cases hinitialiser with
  | none => rfl
  | @some r u hrest =>
    split
    · rename_i u hu
      obtain rfl := Option.some.inj hu
      obtain ⟨r, rfl, hr⟩ := hrest.cons_right (by decide)
      exact hr.isTrailing
    · rename_i u hnot hu
      obtain rfl := Option.some.inj hu
      split
      · rename_i r hr
        obtain rfl := Option.some.inj hr
        obtain ⟨v, rfl, -⟩ := hrest.cons_left
        exact absurd rfl (hnot v)
      · rename_i r _ hr
        obtain rfl := Option.some.inj hr
        exact hrest.isTrailing
      · rename_i hr
        cases hr
    · rename_i hu
      cases hu

/-- White space on either side of a text does not change the member that it declares. -/
theorem memberName?_alike (h : Padded (skipBlanks s) (skipBlanks t)) : memberName? s = memberName? t := by
  have hblank : ∀ c, isBlank c = true → isWord c = false := fun c hc => isWord_eq_false_of_isBlank hc
  simp only [memberName?, enumerator?, h.takeWhile hblank, (h.dropWhile isWord).endsEnumerator]
  split
  · rfl
  · rfl

end Enumerators

/-! ## Whole lines -/

section Lines

variable {s t r u : Text}

/-- Two declarations of the same enum, with members from texts that declare the same ones. -/
def Declaration.Alike (d d' : Declaration) : Prop :=
  d.name = d'.name ∧ d.pieces.filterMap memberName? = d'.pieces.filterMap memberName?

/-- The same members are declared, if each text is another one with white space behind it. -/
theorem filterMap_memberName?_alike {ss ts : List Text} (h : List.Forall₂ Padded ss ts) :
    ss.filterMap memberName? = ts.filterMap memberName? := by
  induction h with
  | nil => rfl
  | cons hfirst _ ih => rw [List.filterMap_cons, List.filterMap_cons, ih, memberName?_alike hfirst.skipBlanks]

theorem Padded.ofTail? (h : Padded r u) (name : Text) (n m : Nat) :
    Option.Rel Declaration.Alike (Declaration.ofTail? name n r) (Declaration.ofTail? name m u) := by
  fun_cases Declaration.ofTail? name n r with
  | case1 s =>
    obtain ⟨v, rfl, hv⟩ := h.cons_left
    exact rel_map hv.inlineBody? fun _ _ hbody => ⟨rfl, filterMap_memberName?_alike hbody.splitOn⟩
  | case2 r hbrace htrailing =>
    unfold Declaration.ofTail?
    split
    · obtain ⟨v, rfl, -⟩ := h.cons_right (by decide)
      exact absurd rfl (hbrace v)
    · rw [if_pos (h.isTrailing.trans htrailing)]
      exact .some ⟨rfl, rfl⟩
  | case3 r hbrace htrailing =>
    unfold Declaration.ofTail?
    split
    · obtain ⟨v, rfl, -⟩ := h.cons_right (by decide)
      exact absurd rfl (hbrace v)
    · rw [h.isTrailing, if_neg htrailing]
      exact .none

/-- White space on either side of a line does not change what it declares. -/
theorem ofLine?_alike (h : Padded (skipBlanks s) (skipBlanks t)) :
    Option.Rel Declaration.Alike (Declaration.ofLine? s) (Declaration.ofLine? t) := by
  have henum : ∀ c ∈ "enum".toList, isBlank c = false := by
    intro c hc
    exact Bool.not_eq_true _ ▸ List.any_eq_false.mp (by decide : "enum".toList.any isBlank = false) c hc
  rw [Declaration.ofLine?_eq, Declaration.ofLine?_eq]
  refine rel_bind (h.keyword? henum) fun _ _ hkeyword => ?_
  refine rel_bind (hkeyword.skipSomeBlanks?_bind (fun _ _ hnext => hnext.declaredName?) rfl) ?_
  rintro ⟨name, r⟩ ⟨_, u⟩ ⟨rfl, hrest⟩
  exact rel_bind hrest.skipUnderlying? fun _ _ htail => htail.ofTail? name _ _

/-- White space stands behind what is left of a text in front of it. -/
theorem exists_trimEnd (s : Text) : ∃ v, Blanks v ∧ s = trimEnd s ++ v := by
  obtain ⟨w, hw, hs⟩ := exists_blanks s.reverse
  refine ⟨w.reverse, fun c hc => hw c (List.mem_reverse.mp hc), ?_⟩
  rw [trimEnd, ← List.reverse_append, ← hs, List.reverse_reverse]

/-- A line is what is left of it without the white space around it, and that white space. -/
theorem padded_trim (hn : '\n' ∉ s) : Padded (skipBlanks (trim s)) (skipBlanks s) := by
  obtain ⟨v, hv, hs⟩ := exists_trimEnd (skipBlanks s)
  have hfirst : skipBlanks (trim s) = trim s := by
    refine skipBlanks_eq_self fun c hc => ?_
    obtain ⟨r, hr⟩ := List.head?_eq_some_iff.mp hc
    have hnot := List.head?_dropWhile_not isBlank s
    rw [← skipBlanks, hs, ← trim, hr] at hnot
    simpa using hnot
  have hbreak : '\n' ∉ v := by
    intro h
    have hmem : '\n' ∈ skipBlanks s := by
      rw [hs]
      exact List.mem_append_right _ h
    exact hn ((List.dropWhile_suffix isBlank).subset hmem)
  rw [hfirst]
  conv => rhs; rw [hs]
  exact padded_append (trim s) hv hbreak

/-- Nothing is left of white space, and something of any other text. -/
theorem trim_eq_nil_iff : trim s = [] ↔ Blanks s := by
  constructor
  · intro h
    obtain ⟨w, hw, hs⟩ := exists_blanks s
    obtain ⟨v, hv, hrest⟩ := exists_trimEnd (skipBlanks s)
    rw [← trim, h, List.nil_append] at hrest
    rw [hs, hrest]
    exact List.forall_mem_append.mpr ⟨hw, hv⟩
  · intro h
    rw [trim, skipBlanks_eq_nil h]
    rfl

end Lines

end EnumStrings
