import Mathlib.Data.Option.Basic
import EnumStrings.Proofs.Grammar

/-!
# Declaration lines are read as they are written

A head is read with its name, whatever text follows it (`ofLine?_head`): the name ends where white space, a colon or
the text behind the head starts, and a qualifier's own word is the name where no other name comes next. Members behind
the opening brace end at the first closing brace (`inlineBody?_closed`), or with the line (`inlineBody?_open`).
-/

namespace EnumStrings

/-! ## The name -/

section Names

variable {n s : Text}

/-- A name consists of word characters. -/
theorem EnumName.isWord (h : EnumName n) : ∀ c ∈ n, isWord c = true := by
  cases h with
  | mk hc hs =>
    intro d hd
    rcases List.mem_cons.mp hd with rfl | hd
    · exact isWord_of_isAlpha hc
    · exact hs d hd

/-- A name starts with no white space. -/
theorem EnumName.head (h : EnumName n) (s : Text) : ∀ c ∈ (n ++ s).head?, isBlank c = false := by
  cases h with
  | mk hc _ => exact forall_head?_cons (isBlank_eq_false_of_isWord (isWord_of_isAlpha hc)) _

/-- A name is read up to the first character that is not of a word. -/
theorem identifier?_append (hn : EnumName n) (hs : ∀ c ∈ s.head?, isWord c = false) :
    identifier? (n ++ s) = some (n, s) := by
  have ht := takeWhile_append_of_head hn.isWord hs
  have hd := dropWhile_append_of_head hn.isWord hs
  cases hn with
  | mk hc _ =>
    rw [List.cons_append] at ht hd ⊢
    rw [identifier?, if_pos hc, ht, hd]

/-- The qualifiers are names. -/
theorem enumName_of_mem_qualifiers {q : Text} (h : q ∈ qualifiers) : EnumName q := by
  have hq : q = ['c', 'l', 'a', 's', 's'] ∨ q = ['s', 't', 'r', 'u', 'c', 't'] := by simpa [qualifiers] using h
  rcases hq with rfl | rfl
  · exact .mk (by decide) fun c hc => isWord_of_isAlpha (List.all_eq_true.mp (by decide) c hc)
  · exact .mk (by decide) fun c hc => isWord_of_isAlpha (List.all_eq_true.mp (by decide) c hc)

/-- The name that comes next, behind white space, and what follows it. -/
def nextName? (s : Text) : Option (Text × Text) := (skipSomeBlanks? s).bind identifier?

/-- A qualifier is passed over if a name comes next. -/
theorem declaredName?_eq (s : Text) : declaredName? s = (identifier? s).map fun p =>
    if p.1 ∈ qualifiers then (nextName? p.2).getD p else p := by
  cases hs : identifier? s with
  | none => simp [declaredName?, hs]
  | some p => by_cases hq : p.1 ∈ qualifiers <;> simp [declaredName?, nextName?, hs, hq]

/-- The name behind white space is read. -/
theorem nextName?_append {v : Text} (hv : Blanks v) (hne : v ≠ []) (hn : EnumName n)
    (hs : ∀ c ∈ s.head?, isWord c = false) : nextName? (v ++ (n ++ s)) = some (n, s) := by
  rw [nextName?, skipSomeBlanks?_append hv hne, skipBlanks_eq_self (hn.head s), Option.bind_some,
    identifier?_append hn hs]

/-- No name comes next in front of a character that is not of a word. -/
theorem nextName?_of_head (hs : ∀ c ∈ (skipBlanks s).head?, isWord c = false) : nextName? s = none := by
  cases s with
  | nil => rfl
  | cons c s =>
    cases hb : isBlank c with
    | false => simp [nextName?, skipSomeBlanks?, hb]
    | true =>
      have hskip : skipBlanks (c :: s) = skipBlanks s := by simp [skipBlanks, hb]
      rw [hskip] at hs
      cases hr : skipBlanks s with
      | nil => simp [nextName?, skipSomeBlanks?, hb, hr, identifier?]
      | cons d r =>
        have hd : d.isAlpha = false := isAlpha_eq_false_of_isWord (hs d (by simp [hr]))
        simp [nextName?, skipSomeBlanks?, hb, hr, identifier?, hd]

/-- The word behind white space is the name, unless it is a qualifier and a name comes next. -/
theorem declaredName?_word {v : Text} (hv : Blanks v) (hne : v ≠ []) (hn : EnumName n)
    (hs : ∀ c ∈ s.head?, isWord c = false) : (skipSomeBlanks? (v ++ (n ++ s))).bind declaredName? =
      some (if n ∈ qualifiers then (nextName? s).getD (n, s) else (n, s)) := by
  rw [skipSomeBlanks?_append hv hne, skipBlanks_eq_self (hn.head s), Option.bind_some, declaredName?_eq,
    identifier?_append hn hs, Option.map_some]

/-- The name behind white space and perhaps a qualifier is read, be it a qualifier's own word, if no other name comes
next. -/
theorem declaredName?_append {q v : Text} (hq : QualifierPart q) (hv : Blanks v) (hne : v ≠ []) (hn : EnumName n)
    (hs : ∀ c ∈ s.head?, isWord c = false) (hnext : ∀ c ∈ (skipBlanks s).head?, isWord c = false) :
    (skipSomeBlanks? (q ++ (v ++ (n ++ s)))).bind declaredName? = some (n, s) := by
  cases hq with
  | absent => rw [List.nil_append, declaredName?_word hv hne hn hs, nextName?_of_head hnext, Option.getD_none, ite_self]
  | @present w q hw hwne hmem =>
    have hend : ∀ c ∈ (v ++ (n ++ s)).head?, isWord c = false :=
      forall_head?_append (fun c hc => isWord_eq_false_of_isBlank (hv c hc)) fun h => absurd h hne
    rw [List.append_assoc, declaredName?_word hw hwne (enumName_of_mem_qualifiers hmem) hend, if_pos hmem,
      nextName?_append hv hne hn hs, Option.getD_some]

end Names

/-! ## The underlying type -/

/-- What may follow the head of a declaration line: nothing that could belong to it. -/
def EndsHead (r : Text) : Prop := ∀ c ∈ r.head?, isBlank c = false ∧ isTypeChar c = false

section Types

variable {t w r : Text}

/-- A type starts as its first word does. -/
theorem TypeWords.exists_cons (h : TypeWords t) : ∃ c s, t = c :: s ∧ isTypeStart c = true := by
  cases h with
  | one ht => cases ht with
    | mk hc _ => exact ⟨_, _, rfl, hc⟩
  | more ht _ _ _ => cases ht with
    | mk hc _ => exact ⟨_, _, rfl, hc⟩

/-- A type starts with no white space. -/
theorem TypeWords.head (h : TypeWords t) (s : Text) : ∀ c ∈ (t ++ s).head?, isBlank c = false := by
  obtain ⟨c, t, rfl, hc⟩ := h.exists_cons
  exact forall_head?_cons (isBlank_eq_false_of_isTypeStart hc) _

/-- A word of a type is skipped together with the white space behind it. -/
theorem skipTypeWords_word (ht : TypeWord t) (hr : ∀ c ∈ r.head?, isTypeChar c = false) :
    skipTypeWords (t ++ r) = skipTypeWords (skipBlanks r) := by
  cases ht with
  | mk hc hs => rw [List.cons_append, skipTypeWords, if_pos hc, dropWhile_append_of_head hs hr]

/-- The words of a type are skipped. -/
theorem skipTypeWords_append (ht : TypeWords t) (hw : Blanks w) (hr : EndsHead r) :
    skipTypeWords (t ++ (w ++ r)) = r := by
  induction ht with
  | one ht =>
    have hhead : ∀ c ∈ (w ++ r).head?, isTypeChar c = false :=
      forall_head?_append (fun c hc => isTypeChar_eq_false_of_isBlank (hw c hc)) fun _ c hc => (hr c hc).2
    rw [skipTypeWords_word ht hhead, skipBlanks_append_of_head hw fun c hc => (hr c hc).1]
    cases r with
    | nil => rw [skipTypeWords]
    | cons c r =>
      have hc : ¬ isTypeStart c = true := by
        intro h
        have := (hr c rfl).2
        rw [isTypeChar_of_isTypeStart h] at this
        cases this
      rw [skipTypeWords, if_neg hc]
  | @more t v s ht hv hne hs ih =>
    have hhead : ∀ c ∈ (v ++ (s ++ (w ++ r))).head?, isTypeChar c = false :=
      forall_head?_append (fun c hc => isTypeChar_eq_false_of_isBlank (hv c hc)) fun h => absurd h hne
    rw [List.append_assoc, List.append_assoc, skipTypeWords_word ht hhead,
      skipBlanks_append_of_head hv (hs.head _), ih]

/-- The underlying type is skipped, and the white space behind it. -/
theorem skipUnderlying?_append {u : Text} (hu : UnderlyingPart u) (hw : Blanks w) (hr : EndsHead r) :
    skipUnderlying? (u ++ (w ++ r)) = some r := by
  have hblank : ∀ c ∈ r.head?, isBlank c = false := fun c hc => (hr c hc).1
  cases hu with
  | absent =>
    rw [List.nil_append, skipUnderlying?, skipBlanks_append_of_head hw hblank]
    split
    · exact absurd (hr ':' rfl).2 (by simp [isTypeChar])
    · rfl
  | @present x v t hx hv ht =>
    have hcolon : skipBlanks (x ++ ':' :: (v ++ (t ++ (w ++ r)))) = ':' :: (v ++ (t ++ (w ++ r))) :=
      skipBlanks_append_of_head hx (forall_head?_cons (by decide) _)
    have htype : skipBlanks (v ++ (t ++ (w ++ r))) = t ++ (w ++ r) := skipBlanks_append_of_head hv (ht.head _)
    have hrest := skipTypeWords_append ht hw hr
    obtain ⟨c, t, rfl, hc⟩ := ht.exists_cons
    rw [List.cons_append] at htype hrest
    rw [List.append_assoc, List.cons_append, List.append_assoc, skipUnderlying?, hcolon]
    simp [htype, hc, hrest]

end Types

/-! ## The members behind the brace -/

section Bodies

variable {b s w : Text}

/-- Without a closing brace the whole text holds members. -/
theorem inlineBody?_open (hs : '}' ∉ s) : inlineBody? s = some s := by
  have htake : s.takeWhile (· != '}') = s := by
    simpa using takeWhile_append_of_head (s := []) (forall_ne_of_notMem hs) (by simp)
  have hdrop : s.dropWhile (· != '}') = [] := by
    simpa using dropWhile_append_of_head (s := []) (forall_ne_of_notMem hs) (by simp)
  simp only [inlineBody?, htake, hdrop]

/-- A semicolon may stand between a closing brace and the comment behind it. -/
theorem isTrailing_skipSemicolon {k c : Text} (hk : SemicolonPart k) (hw : Blanks w) (hc : CommentPart c) :
    isTrailing (skipSemicolon (k ++ (w ++ c))) = true := by
  cases hk with
  | absent =>
    have hskip : skipBlanks (w ++ c) = c := skipBlanks_comment hw hc
    have hnil : isTrailing c = true := isTrailing_append (w := []) (by simp [Blanks]) hc
    rw [List.nil_append, skipSemicolon, hskip]
    split
    · exact absurd (hc.head ';' rfl) (by decide)
    · exact hnil
  | @present v hv =>
    have hskip : skipBlanks (v ++ ';' :: (w ++ c)) = ';' :: (w ++ c) :=
      skipBlanks_append_of_head hv (forall_head?_cons (by decide) _)
    rw [List.append_assoc, List.singleton_append, skipSemicolon, hskip]
    exact isTrailing_append hw hc

/-- Members end at the closing brace, if only a semicolon and a comment stand behind it. -/
theorem inlineBody?_closed {k c : Text} (hb : '}' ∉ b) (hk : SemicolonPart k) (hw : Blanks w) (hc : CommentPart c) :
    inlineBody? (b ++ '}' :: (k ++ (w ++ c))) = some b := by
  have hhead : ∀ d ∈ ('}' :: (k ++ (w ++ c))).head?, (d != '}') = false := forall_head?_cons (by decide) _
  have htake := takeWhile_append_of_head (forall_ne_of_notMem hb) hhead
  have hdrop := dropWhile_append_of_head (forall_ne_of_notMem hb) hhead
  simp only [inlineBody?, htake, hdrop, isTrailing_skipSemicolon hk hw hc, if_true]

end Bodies

/-! ## The whole line -/

section Lines

variable {name h w r : Text}

/-- What may follow the head of a declaration line does not continue the name. -/
theorem EndsHead.isWord (hr : EndsHead r) : ∀ c ∈ r.head?, isWord c = false := fun c hc =>
  (Bool.or_eq_false_iff.mp (hr c hc).2).1

/-- What follows the name does not continue it, and no other name comes next. -/
theorem UnderlyingPart.ends_name {u : Text} (hu : UnderlyingPart u) (hw : Blanks w) (hr : EndsHead r) :
    (∀ c ∈ (u ++ (w ++ r)).head?, isWord c = false) ∧
      ∀ c ∈ (skipBlanks (u ++ (w ++ r))).head?, isWord c = false := by
  have hblank : ∀ {w : Text}, Blanks w → ∀ c ∈ w, isWord c = false := fun hw c hc =>
    isWord_eq_false_of_isBlank (hw c hc)
  cases hu with
  | absent =>
    rw [List.nil_append, skipBlanks_append_of_head hw fun c hc => (hr c hc).1]
    exact ⟨forall_head?_append (hblank hw) fun _ => hr.isWord, hr.isWord⟩
  | @present x v t hx hv ht =>
    have hcolon : isWord ':' = false := isWord_delimiter (by decide)
    rw [List.append_assoc, List.cons_append, skipBlanks_append_of_head hx (forall_head?_cons (by decide) _)]
    exact ⟨forall_head?_append (hblank hx) fun _ => forall_head?_cons hcolon _, forall_head?_cons hcolon _⟩

/-- The declaration of the enum `name` on a line of `length` bytes, given what stands behind the head of the line. -/
def Declaration.ofTail? (name : Text) (length : Nat) : Text → Option Declaration
  | '{' :: s => (inlineBody? s).map fun body => ⟨name, some ⟨body, length - byteLength s⟩⟩
  | s => if isTrailing s then some ⟨name, none⟩ else none

/-- A declaration line is read in four steps: the keyword, the name, the underlying type and the tail. -/
theorem Declaration.ofLine?_eq (line : Text) :
    ofLine? line = (keyword? "enum".toList (skipBlanks line)).bind fun s =>
      ((skipSomeBlanks? s).bind declaredName?).bind fun p =>
        (skipUnderlying? p.2).bind (ofTail? p.1 (byteLength line)) := by
  simp only [ofLine?, Option.bind_eq_bind, Option.bind_assoc]
  refine Option.bind_congr fun s _ => Option.bind_congr fun t _ => Option.bind_congr fun p _ =>
    Option.bind_congr fun r _ => ?_
  split
  case h_1 s _ => cases hb : inlineBody? s <;> simp [ofTail?, hb]
  case h_2 hne _ => cases ht : isTrailing r <;> simp [ofTail?, ht, guard]

/-- The keyword of a declaration line is read. -/
theorem keyword?_enum (hw : Blanks w) (s : Text) :
    keyword? "enum".toList (skipBlanks (w ++ ("enum".toList ++ s))) = some s := by
  have hstart : ∀ c ∈ "enum".toList, isBlank c = false := fun c hc =>
    isBlank_eq_false_of_isWord (isWord_of_isAlpha (List.all_eq_true.mp (by decide) c hc))
  rw [skipBlanks_append_of_head hw (forall_head?_append hstart fun h => absurd h (by decide)), keyword?_append]

/-- A head is read together with its name, whatever comes behind it. -/
theorem ofLine?_head (hh : Head name h) (hw : Blanks w) (hr : EndsHead r) :
    Declaration.ofLine? (h ++ (w ++ r)) = Declaration.ofTail? name (byteLength (h ++ (w ++ r))) r := by
  cases hh with
  | @mk x q v u hx hq hv hne hn hu =>
    obtain ⟨hend, hnext⟩ := hu.ends_name hw hr
    have hname := declaredName?_append hq hv hne hn hend hnext
    have htype := skipUnderlying?_append hu hw hr
    simp only [List.append_assoc, Declaration.ofLine?_eq, keyword?_enum hx, Option.bind_some, hname, htype]

/-- A line that opens no braces declares an enum if only a comment stands behind the head. -/
theorem ofLine?_append_trailing {c : Text} (hh : Head name h) (hw : Blanks w) (hc : CommentPart c) :
    Declaration.ofLine? (h ++ (w ++ c)) = some ⟨name, none⟩ := by
  have hr : EndsHead c := by
    intro d hd
    rw [hc.head d hd]
    exact ⟨by decide, isTypeChar_delimiter (by decide) (by decide)⟩
  have ht : isTrailing c = true := isTrailing_append (w := []) (by simp [Blanks]) hc
  rw [ofLine?_head hh hw hr]
  cases hc with
  | absent => rfl
  | present h => simp [Declaration.ofTail?, ht]

/-- A line that opens braces declares an enum if what stands behind them can be read. -/
theorem ofLine?_append_brace {s body : Text} (hh : Head name h) (hw : Blanks w) (hb : inlineBody? s = some body) :
    Declaration.ofLine? (h ++ (w ++ '{' :: s)) = some ⟨name, some ⟨body, byteLength (h ++ (w ++ ['{']))⟩⟩ := by
  have hr : EndsHead ('{' :: s) := forall_head?_cons ⟨by decide, isTypeChar_delimiter (by decide) (by decide)⟩ s
  have hlength : byteLength (h ++ (w ++ '{' :: s)) - byteLength s = byteLength (h ++ (w ++ ['{'])) := by
    simp only [byteLength_append, byteLength_cons, byteLength_nil]
    omega
  rw [ofLine?_head hh hw hr, Declaration.ofTail?, hb, Option.map_some, hlength]

end Lines

end EnumStrings
