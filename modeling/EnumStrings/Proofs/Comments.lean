import EnumStrings.Proofs.Members
import EnumStrings.Proofs.Surface

/-!
# Comments behind lines

What a line declares ends in front of its first slash, unless that slash stands between braces. So a comment behind a
line only makes the comment longer that is there, or is the only one (`exists_cut`): a line for a member stays one, and
no other line becomes one (`memberName?_append_comment`), and the same lines declare enums as before
(`Tail.append_comment`, `DeclarationLine.of_comment`).

Behind an opening brace that the line does not close, members are searched for in the comment too, up to a closing brace
in it or up to its last pair of slashes (`Tail.append_unclosed`). What is searched there starts with the comment, or is
a single slash, or nothing (`spill_cases`). So the comment changes the members if some text behind a comma in it
declares one, or if the single slash is put behind the last member (`definition?_append_comment`).
-/

namespace EnumStrings

/-- What a group defines, if it declares an enum. -/
def Group.definition? (g : Group) : Option Definition := (Enumeration.ofGroup g).toOption.map Enumeration.definition

/-- A declaration line that opens a brace, with `s` behind it, and does not close it. -/
def LeavesOpen (line s : Text) : Prop :=
  ∃ name h w, Head name h ∧ Blanks w ∧ '}' ∉ s ∧ line = h ++ (w ++ '{' :: s)

/-- `y` changes no members behind an open brace: no text behind a comma in it declares one, and it is no single slash
behind a member without a comment. -/
def SpillsNothing (s y : Text) : Prop :=
  (∀ p ∈ (y.splitOn ',').tail, memberName? p = none) ∧
    (y = ['/'] → ∀ p ∈ (s.splitOn ',').getLast?, memberName? p = none ∨ ['/', '/'] <:+: p)

/-! ## The first slash -/

section Slashes

variable {s t f x y c d u : Text}

/-- The end of a text that ends with no slash does not do so either. -/
theorem getLast?_ne_of_append (h : (s ++ t).getLast? ≠ some '/') : t.getLast? ≠ some '/' := by
  intro ht
  rw [List.getLast?_append, ht] at h
  exact h rfl

theorem CommentPart.append (hc : CommentPart c) (hd : '\n' ∉ d) : CommentPart (c ++ '/' :: '/' :: d) := by
  cases hc with
  | absent => exact .present hd
  | present hc => exact .present (by simp [hc, hd])

theorem CommentPart.of_append (h : CommentPart (c ++ '/' :: '/' :: d)) (hc : c.getLast? ≠ some '/') :
    CommentPart c := by
  match c, h with
  | [], _ => exact .absent
  | [e], h =>
    cases h
    exact absurd rfl hc
  | e :: e' :: c, h =>
    obtain ⟨rfl, rfl, hn⟩ : e = '/' ∧ e' = '/' ∧ '\n' ∉ c := by
      cases h with
      | present hn => exact ⟨rfl, rfl, fun h => hn (List.mem_append_left _ h)⟩
    exact .present hn

/-- A single slash ends a comment only where the comment goes on for longer than that. -/
theorem CommentPart.of_append_slash (h : CommentPart (c ++ ['/'])) (hc : c.getLast? ≠ some '/') :
    ∃ z, '\n' ∉ z ∧ c = '/' :: '/' :: z := by
  match c, h with
  | [], h => cases h
  | [e], h =>
    cases h
    exact absurd rfl hc
  | e :: e' :: z, h =>
    cases h with
    | present hn => exact ⟨z, fun h => hn (List.mem_append_left _ h), rfl⟩

/-- White space and words hold no slash. -/
theorem Blanks.notMem_slash {w : Text} (hw : Blanks w) : '/' ∉ w := hw.notMem (by decide)

theorem notMem_slash_of_isWord (hs : ∀ c ∈ s, isWord c = true) : '/' ∉ s := by
  intro h
  have hslash : isWord '/' = false := isWord_delimiter (by decide)
  rw [hs _ h] at hslash
  cases hslash

/-- A semicolon and a comment stand behind a brace whether or not there is another comment behind them. -/
theorem AfterBrace.append (h : AfterBrace u) (hd : '\n' ∉ d) : AfterBrace (u ++ '/' :: '/' :: d) := by
  obtain @⟨k, w, c, hk, hw, hc⟩ := h
  rw [List.append_assoc, List.append_assoc]
  exact .mk hk hw (hc.append hd)

theorem AfterBrace.of_append (h : AfterBrace (u ++ '/' :: '/' :: d)) (hu : u.getLast? ≠ some '/') : AfterBrace u := by
  generalize hv : u ++ '/' :: '/' :: d = v at h
  obtain @⟨k, w, c, hk, hw, hc⟩ := h
  have hfront : '/' ∉ k ++ w := by
    rw [List.mem_append, not_or]
    refine ⟨?_, hw.notMem_slash⟩
    cases hk with
    | absent => exact List.not_mem_nil
    | present hx => simpa using hx.notMem_slash
  rw [← List.append_assoc] at hv
  obtain ⟨y, rfl, rfl⟩ := exists_cut hfront hv
  rw [List.append_assoc]
  exact .mk hk hw (hc.of_append (getLast?_ne_of_append hu))

end Slashes

/-! ## Lines for members -/

section Members

variable {name s c : Text}

/-- A line for a member is a text without slashes and a comment, and any other comment may stand there. -/
theorem MemberLine.exists_front (h : MemberLine name s) :
    ∃ f c, '/' ∉ f ∧ CommentPart c ∧ s = f ++ c ∧ ∀ d, CommentPart d → MemberLine name (f ++ d) := by
  obtain @⟨t, k, w, c, ht, hk, hw, hc⟩ := h
  have hchar : ∀ e, isEnumeratorChar e = true → e ≠ '/' := by
    rintro e he rfl
    have hword : isWord '/' = false := isWord_delimiter (by decide)
    have hblank : isBlank '/' = false := by decide
    simp [isEnumeratorChar, hword, hblank] at he
  have hcomma : '/' ∉ k := by
    cases hk <;> simp
  refine ⟨t ++ (k ++ w), c, ?_, hc, by simp only [List.append_assoc], fun d hd => ?_⟩
  · rw [List.mem_append, List.mem_append, not_or, not_or]
    exact ⟨fun hmem => hchar _ (ht.enumeratorChar _ hmem) rfl, hcomma, hw.notMem_slash⟩
  · have hline : MemberLine name (t ++ (k ++ (w ++ d))) := .mk ht hk hw hd
    simpa only [List.append_assoc] using hline

/-- A comment behind a text changes nothing about the member that the text declares. -/
theorem memberName?_append_comment (hs : s.getLast? ≠ some '/') (hc : '\n' ∉ c) :
    memberName? (s ++ '/' :: '/' :: c) = memberName? s := by
  apply Option.ext
  intro name
  rw [memberName?_eq_some_iff, memberName?_eq_some_iff]
  constructor
  · intro h
    obtain ⟨f, d, hf, hd, hparts, hline⟩ := h.exists_front
    obtain ⟨y, rfl, rfl⟩ := exists_cut hf hparts
    exact hline y (hd.of_append (getLast?_ne_of_append hs))
  · intro h
    obtain ⟨f, d, -, hd, rfl, hline⟩ := h.exists_front
    rw [List.append_assoc]
    exact hline _ (hd.append hc)

/-- A text that ends with a single slash declares a member only where the slash belongs to a comment. -/
theorem memberLine_append_slash (hs : s.getLast? ≠ some '/') :
    MemberLine name (s ++ ['/']) ↔ MemberLine name s ∧ ['/', '/'] <:+: s := by
  constructor
  · intro h
    obtain ⟨f, d, hf, hd, hparts, hline⟩ := h.exists_front
    obtain ⟨y, rfl, rfl⟩ := exists_cut hf hparts
    obtain ⟨z, hz, rfl⟩ := hd.of_append_slash (getLast?_ne_of_append hs)
    exact ⟨hline _ (.present hz), ⟨f, z, by simp⟩⟩
  · rintro ⟨h, hslashes⟩
    obtain ⟨f, d, hf, hd, rfl, hline⟩ := h.exists_front
    rw [List.append_assoc]
    refine hline _ ?_
    cases hd with
    | absent =>
      rw [List.append_nil] at hslashes
      exact absurd (hslashes.subset List.mem_cons_self) hf
    | present hn => exact .present (by simp [hn])

theorem memberName?_append_slash_eq_iff (hs : s.getLast? ≠ some '/') :
    memberName? (s ++ ['/']) = memberName? s ↔ memberName? s = none ∨ ['/', '/'] <:+: s := by
  have hslash : ∀ name, memberName? (s ++ ['/']) = some name ↔ memberName? s = some name ∧ ['/', '/'] <:+: s := by
    intro name
    rw [memberName?_eq_some_iff, memberName?_eq_some_iff, memberLine_append_slash hs]
  cases hm : memberName? s with
  | none =>
    refine iff_of_true (Option.eq_none_iff_forall_ne_some.mpr fun name h => ?_) (Or.inl rfl)
    rw [((hslash name).mp h).1] at hm
    cases hm
  | some name => rw [hslash name, hm]; simp

end Members

/-! ## Declaration lines -/

section Lines

variable {name t s c r y : Text} {searched : Option Text} {d : Declaration}

/-- The head of a declaration line holds no slash. -/
theorem Head.notMem_slash {h : Text} (hh : Head name h) : '/' ∉ h := by
  have hslash : isTypeChar '/' = false := isTypeChar_delimiter (by decide) (by decide)
  have hwords : ∀ {t : Text}, TypeWords t → '/' ∉ t := by
    intro t ht
    have hword : ∀ {t : Text}, TypeWord t → '/' ∉ t := by
      rintro _ ⟨hc, hs⟩ hmem
      rcases List.mem_cons.mp hmem with rfl | hmem
      · rw [isTypeChar_of_isTypeStart hc] at hslash
        cases hslash
      · rw [hs _ hmem] at hslash
        cases hslash
    induction ht with
    | one ht => exact hword ht
    | more ht hw _ _ ih => simp [hword ht, hw.notMem_slash, ih]
  obtain @⟨w, q, v, u, hw, hq, hv, -, hn, hu⟩ := hh
  have henum : '/' ∉ "enum".toList := by decide
  have hqualifier : '/' ∉ q := by
    cases hq with
    | absent => exact List.not_mem_nil
    | present hx _ hq => simp [hx.notMem_slash, notMem_slash_of_isWord (enumName_of_mem_qualifiers hq).isWord]
  have hunderlying : '/' ∉ u := by
    cases hu with
    | absent => exact List.not_mem_nil
    | present hx hy ht => simp [hx.notMem_slash, hy.notMem_slash, hwords ht]
  simp only [List.mem_append, not_or]
  exact ⟨hw.notMem_slash, henum, hqualifier, hv.notMem_slash, notMem_slash_of_isWord hn.isWord, hunderlying⟩

/-- A comment behind a tail changes nothing, unless the tail leaves its brace open. -/
theorem Tail.append_comment (h : Tail r searched) (hopen : ∀ s, r = '{' :: s → '}' ∈ s) (hr : r.getLast? ≠ some '/')
    (hc : '\n' ∉ c) : Tail (r ++ '/' :: '/' :: c) searched := by
  cases h with
  | plain h => exact .plain (h.append hc)
  | unclosed hs => exact absurd (hopen _ rfl) hs
  | closed hb hu =>
    rw [List.cons_append, List.append_assoc]
    exact .closed hb (hu.append hc)
  | @commented b u x hb hu hx =>
    have hend : u.getLast? ≠ some '/' :=
      getLast?_ne_of_append (s := '{' :: (b ++ ['}'])) (by simpa using hr)
    rw [List.cons_append, List.append_assoc]
    exact .commented hb (fun h => hu (h.of_append hend)) hx

/-- Behind a brace that is left open, the search for members goes on as it would behind a brace of its own. -/
theorem Tail.append_unclosed (hs : '}' ∉ s) (h : Tail ('{' :: c) (some y)) :
    Tail ('{' :: (s ++ c)) (some (s ++ y)) := by
  have hnot : ∀ {b : Text}, '}' ∉ b → '}' ∉ s ++ b := fun hb => by simp [hs, hb]
  cases h with
  | unclosed hc => exact .unclosed (hnot hc)
  | closed hb hu =>
    rw [← List.append_assoc]
    exact .closed (hnot hb) hu
  | commented hb hu hx =>
    obtain ⟨z, rfl, hz⟩ := hx
    rw [← List.append_assoc]
    exact .commented (hnot hb) hu ⟨z, by rw [List.append_assoc], hz⟩

/-- No text becomes a tail by a comment behind it. -/
theorem Tail.of_comment (h : Tail (r ++ '/' :: '/' :: c) searched) (hr : r.getLast? ≠ some '/') :
    ∃ searched, Tail r searched := by
  rw [exists_tail_iff]
  rcases exists_tail_iff.mp ⟨searched, h⟩ with hcomment | ⟨s, hs, hend⟩
  · exact Or.inl (hcomment.of_append hr)
  · cases r with
    | nil => exact absurd (List.cons.inj hs).1 (by decide)
    | cons e r =>
      -- a comment ends in front of the first closing brace or behind it, and so do the text and the comment
      rw [List.cons_append] at hs
      obtain ⟨rfl, rfl⟩ := List.cons.inj hs
      refine Or.inr ⟨r, rfl, ?_⟩
      by_cases hbrace : '}' ∈ r
      · obtain ⟨b, u, rfl, hb⟩ := List.eq_append_cons_of_mem hbrace
        refine Or.inr ⟨b, u, rfl, hb, ?_⟩
        rcases hend with hend | ⟨b', u', hparts, hb', hend⟩
        · exact absurd (List.mem_append_left _ hbrace) hend
        · rw [List.append_assoc, List.cons_append] at hparts
          obtain ⟨rfl, hbehind⟩ := append_inj_of_head hb hb' rfl rfl hparts
          obtain ⟨-, rfl⟩ := List.cons.inj hbehind
          have hu : u.getLast? ≠ some '/' :=
            getLast?_ne_of_append (s := '{' :: (b ++ ['}'])) (by simpa using hr)
          exact hend.imp_left fun h => h.of_append hu
      · exact Or.inl hbrace

/-- No line becomes a declaration line by a comment behind it. -/
theorem DeclarationLine.of_comment (h : DeclarationLine name searched (t ++ '/' :: '/' :: c))
    (ht : t.getLast? ≠ some '/') : ∃ searched, DeclarationLine name searched t := by
  obtain ⟨head, w, r, hh, hw, htail, hparts⟩ := h
  have hfront : '/' ∉ head ++ w := by simp [hh.notMem_slash, hw.notMem_slash]
  rw [← List.append_assoc] at hparts
  obtain ⟨y, rfl, rfl⟩ := exists_cut hfront hparts
  obtain ⟨searched, hy⟩ := htail.of_comment (getLast?_ne_of_append ht)
  exact ⟨searched, head, w, y, hh, hw, hy, by rw [List.append_assoc]⟩

/-- A comment behind an opening brace is searched for members in some part, or not at all. -/
theorem exists_spill (c : Text) : ∃ y, Tail ('{' :: '/' :: '/' :: c) (some y) := by
  by_cases hbrace : '}' ∈ '/' :: '/' :: c
  · obtain ⟨b, u, hparts, hb⟩ := List.eq_append_cons_of_mem hbrace
    have hslashes : ['/', '/'] <:+: b := by
      match b, hparts with
      | e :: e' :: b, hparts =>
        obtain ⟨rfl, rfl, -⟩ : '/' = e ∧ '/' = e' ∧ c = b ++ '}' :: u := by simpa using hparts
        exact ⟨[], b, rfl⟩
    rw [hparts]
    by_cases hu : AfterBrace u
    · exact ⟨b, .closed hb hu⟩
    · obtain ⟨x, hx⟩ := exists_beforeLastSlashes hslashes
      exact ⟨x, .commented hb hu hx⟩
  · exact ⟨_, .unclosed hbrace⟩

/-- What is searched for members in a comment behind an opening brace: nothing, a single slash, or a text that starts as
the comment does. -/
theorem spill_cases (h : Tail ('{' :: '/' :: '/' :: c) (some y)) (hc : '\n' ∉ c) :
    y = [] ∨ y = ['/'] ∨ ∃ z, '\n' ∉ z ∧ y = '/' :: '/' :: z := by
  have hprefix : y <+: '/' :: '/' :: c := inlineBody?_isPrefix ((inlineBody?_eq_some_iff (by simpa using hc)).mpr h)
  match y, hprefix with
  | [], _ => exact Or.inl rfl
  | [e], hprefix =>
    obtain ⟨rfl, -⟩ := List.cons_prefix_cons.mp hprefix
    exact Or.inr (Or.inl rfl)
  | e :: e' :: z, hprefix =>
    obtain ⟨rfl, rfl, hz⟩ : e = '/' ∧ e' = '/' ∧ z <+: c := by simpa [List.cons_prefix_cons] using hprefix
    exact Or.inr (Or.inr ⟨z, fun h => hc (hz.subset h), rfl⟩)

end Lines

/-! ## Groups -/

section Groups

variable {g g' : Group} {before after : List Text} {name s t c y : Text}

/-- What lines define, if the first of them declares an enum. -/
def definitionOf? : List Text → Option Definition
  | [] => none
  | first :: others =>
    (Declaration.ofLine? first).map fun d => ⟨d.name, (d.pieces ++ others).filterMap memberName?⟩

/-- What a group defines depends on the texts of its lines only. -/
theorem Group.definition?_eq (g : Group) : g.definition? = definitionOf? (g.lines.map (·.text)) := by
  rw [Group.lines, List.map_cons, definitionOf?]
  cases hd : Declaration.ofLine? g.declaration.text with
  | none => simp only [definition?, Enumeration.ofGroup, hd, Except.toOption, Option.map_none]
  | some d =>
    obtain ⟨e, he, hname, -, hmembers⟩ := Enumeration.ofGroup_eq_ok hd
    simp only [definition?, he, Except.toOption, Option.map_some, Enumeration.definition, hname, hmembers]

/-- A group that starts with a declaration line defines what the line and the others say. -/
theorem definitionOf?_cons {searched : Option Text} (h : DeclarationLine name searched t) (hn : '\n' ∉ t)
    (others : List Text) : definitionOf? (t :: others) =
      some ⟨name, ((searched.map (·.splitOn ',')).getD [] ++ others).filterMap memberName?⟩ := by
  obtain ⟨d, hd, rfl, rfl⟩ := h.ofLine? hn
  rw [definitionOf?, hd, Option.map_some, Declaration.pieces]
  cases d.body with
  | none => rfl
  | some body => rfl

theorem definitionOf?_eq_none (h : ∀ name searched, ¬ DeclarationLine name searched t) (hn : '\n' ∉ t)
    (others : List Text) : definitionOf? (t :: others) = none := by
  rw [definitionOf?, Option.map_eq_none_iff]
  cases hd : Declaration.ofLine? t with
  | none => rfl
  | some d => exact absurd (declarationLine_of_ofLine? hd hn) (h _ _)

/-- A comment behind a line other than the first changes nothing about what the lines define. -/
theorem definitionOf?_comment_behind (first : Text) (ht : t.getLast? ≠ some '/') (hc : '\n' ∉ c) :
    definitionOf? (first :: (before ++ (t ++ '/' :: '/' :: c) :: after)) =
      definitionOf? (first :: (before ++ t :: after)) := by
  simp only [definitionOf?, List.filterMap_append, List.filterMap_cons, memberName?_append_comment ht hc]

/-- A comment behind the first line changes nothing either, unless the line leaves its brace open. -/
theorem definitionOf?_comment (hopen : ∀ s, ¬ LeavesOpen t s) (ht : t.getLast? ≠ some '/') (hn : '\n' ∉ t)
    (hc : '\n' ∉ c) : definitionOf? ((t ++ '/' :: '/' :: c) :: after) = definitionOf? (t :: after) := by
  have hn' : '\n' ∉ t ++ '/' :: '/' :: c := by simp [hn, hc]
  by_cases hdeclared : ∃ name searched, DeclarationLine name searched t
  · obtain ⟨name, searched, h⟩ := hdeclared
    have h' : DeclarationLine name searched (t ++ '/' :: '/' :: c) := by
      obtain ⟨head, w, r, hh, hw, htail, rfl⟩ := h
      have hclosed : ∀ s, r = '{' :: s → '}' ∈ s := by
        rintro s rfl
        by_contra hs
        exact hopen s ⟨name, head, w, hh, hw, hs, rfl⟩
      have hr : r.getLast? ≠ some '/' := getLast?_ne_of_append (getLast?_ne_of_append ht)
      refine ⟨head, w, _, hh, hw, htail.append_comment hclosed hr hc, ?_⟩
      rw [List.append_assoc, List.append_assoc]
    rw [definitionOf?_cons h hn, definitionOf?_cons h' hn']
  · have hnone : ∀ name searched, ¬ DeclarationLine name searched t := fun _ _ h => hdeclared ⟨_, _, h⟩
    have hnone' : ∀ name searched, ¬ DeclarationLine name searched (t ++ '/' :: '/' :: c) := fun _ _ h =>
      (h.of_comment ht).elim fun _ h => hnone _ _ h
    rw [definitionOf?_eq_none hnone hn, definitionOf?_eq_none hnone' hn']

/-- The text behind the last comma of `s` goes on as `y` does up to its first comma, and the texts behind that
follow. -/
theorem exists_splitOn_append (s y : Text) : ∃ front before last first behind, s = before ++ last ∧
    (front = [] → before = []) ∧ s.splitOn ',' = front ++ [last] ∧ y.splitOn ',' = first :: behind ∧
      (s ++ y).splitOn ',' = front ++ (last ++ first) :: behind := by
  obtain ⟨first, behind, hy⟩ := List.exists_cons_of_ne_nil (List.splitOn_ne_nil ',' y)
  induction s with
  | nil => exact ⟨[], [], [], first, behind, rfl, fun _ => rfl, rfl, hy, hy⟩
  | cons e s ih =>
    obtain ⟨front, before, last, first, behind, hparts, hfront, hs, hy, hsy⟩ := ih
    by_cases he : e = ','
    · subst he
      refine ⟨[] :: front, ',' :: before, last, first, behind, congrArg _ hparts,
        fun h => absurd h (List.cons_ne_nil _ _), ?_, hy, ?_⟩
      · rw [List.splitOn_cons_eq_if_modifyHead, if_pos (beq_self_eq_true _), hs, List.cons_append]
      · rw [List.cons_append, List.splitOn_cons_eq_if_modifyHead, if_pos (beq_self_eq_true _), hsy, List.cons_append]
    · have hne : ¬ (e == ',') = true := by simpa using he
      rw [List.cons_append, List.splitOn_cons_eq_if_modifyHead, List.splitOn_cons_eq_if_modifyHead, if_neg hne,
        if_neg hne, hs, hsy]
      cases front with
      | nil =>
        rw [hfront rfl] at hparts
        exact ⟨[], [], e :: last, first, behind, congrArg _ hparts, fun _ => rfl, rfl, hy, rfl⟩
      | cons f front =>
        exact ⟨(e :: f) :: front, e :: before, last, first, behind, congrArg _ hparts,
          fun h => absurd h (List.cons_ne_nil _ _), rfl, hy, rfl⟩

/-- The text in front of the first comma starts as the whole text does. -/
theorem isPrefix_of_splitOn_eq_cons {first : Text} {behind : List Text} (h : s.splitOn ',' = first :: behind) :
    first <+: s := by
  have hs : [','].intercalate (s.splitOn ',') = s := List.intercalate_splitOn ','
  rw [h] at hs
  cases behind with
  | nil => exact ⟨[], by simpa using hs⟩
  | cons next behind => exact ⟨_, by rw [← hs, List.intercalate_cons_cons, List.append_assoc]⟩

/-- Two texts declare the same if they do so as lists of a single text. -/
theorem filterMap_singleton_eq_iff :
    [s].filterMap memberName? = [t].filterMap memberName? ↔ memberName? s = memberName? t := by
  rw [List.filterMap_cons, List.filterMap_cons]
  cases memberName? s <;> cases memberName? t <;> simp

/-- A comment behind an open brace changes the members if a text behind a comma in it declares one, or if a single slash
is put behind the last member. -/
theorem filterMap_spill_eq_iff (hs : s.getLast? ≠ some '/')
    (hy : y = [] ∨ y = ['/'] ∨ ∃ z, '\n' ∉ z ∧ y = '/' :: '/' :: z) :
    ((s ++ y).splitOn ',').filterMap memberName? = (s.splitOn ',').filterMap memberName? ↔ SpillsNothing s y := by
  obtain ⟨front, before, last, first, behind, rfl, -, hfront, hbehind, hjoined⟩ := exists_splitOn_append s y
  have hlast : last.getLast? ≠ some '/' := getLast?_ne_of_append hs
  rw [SpillsNothing, hjoined, hfront, hbehind, List.tail_cons, List.getLast?_concat, List.filterMap_append,
    List.filterMap_append, List.append_cancel_left_eq]
  by_cases hslash : y = ['/']
  · subst hslash
    obtain ⟨rfl, rfl⟩ := List.cons.inj hbehind
    exact (filterMap_singleton_eq_iff.trans (memberName?_append_slash_eq_iff hlast)).trans (by simp)
  · have hsame : memberName? (last ++ first) = memberName? last := by
      rcases hy with rfl | rfl | ⟨z, hz, rfl⟩
      · obtain ⟨rfl, -⟩ := List.cons.inj hbehind
        exact congrArg memberName? (List.append_nil last)
      · exact absurd rfl hslash
      · obtain ⟨z₀, others, hz₀⟩ := List.exists_cons_of_ne_nil (List.splitOn_ne_nil ',' z)
        have hsplit : ('/' :: '/' :: z).splitOn ',' = ('/' :: '/' :: z₀) :: others := by
          simp [List.splitOn_cons_eq_if_modifyHead, hz₀]
        obtain ⟨rfl, -⟩ := List.cons.inj (hsplit.symm.trans hbehind)
        exact memberName?_append_comment hlast fun h => hz ((isPrefix_of_splitOn_eq_cons hz₀).subset h)
    rw [← List.singleton_append, List.filterMap_append, filterMap_singleton_eq_iff.mpr hsame,
      List.append_right_eq_self, List.filterMap_eq_nil_iff]
    simp [hslash]

/-- A comment behind a first line that leaves its brace open changes the members by what of it is searched for them. -/
theorem definitionOf?_spill (after : List Text) (hopen : LeavesOpen t s)
    (hspill : Tail ('{' :: '/' :: '/' :: c) (some y)) (ht : t.getLast? ≠ some '/') (hn : '\n' ∉ t) (hc : '\n' ∉ c) :
    ∃ d d', definitionOf? (t :: after) = some d ∧ definitionOf? ((t ++ '/' :: '/' :: c) :: after) = some d' ∧
      d'.name = d.name ∧ (d' = d ↔ SpillsNothing s y) := by
  have hn' : '\n' ∉ t ++ '/' :: '/' :: c := by simp [hn, hc]
  obtain ⟨name, head, w, hh, hw, hs, rfl⟩ := hopen
  have hline : DeclarationLine name (some s) (head ++ (w ++ '{' :: s)) := ⟨head, w, _, hh, hw, .unclosed hs, rfl⟩
  have hline' : DeclarationLine name (some (s ++ y)) (head ++ (w ++ '{' :: s) ++ '/' :: '/' :: c) :=
    ⟨head, w, _, hh, hw, hspill.append_unclosed hs, by simp⟩
  have hend : s.getLast? ≠ some '/' :=
    getLast?_ne_of_append (s := head ++ (w ++ ['{'])) (by simpa using ht)
  refine ⟨_, _, definitionOf?_cons hline hn after, definitionOf?_cons hline' hn' after, rfl, ?_⟩
  simp only [Definition.mk.injEq, true_and, Option.map_some, Option.getD_some, List.filterMap_append,
    List.append_cancel_right_eq]
  exact filterMap_spill_eq_iff hend (spill_cases hspill hc)

/-- A comment behind the first line changes neither whether the lines declare an enum nor its name. -/
theorem definitionOf?_name (ht : t.getLast? ≠ some '/') (hn : '\n' ∉ t) (hc : '\n' ∉ c) :
    (definitionOf? ((t ++ '/' :: '/' :: c) :: after)).map (·.name) = (definitionOf? (t :: after)).map (·.name) := by
  by_cases hopen : ∃ s, LeavesOpen t s
  · obtain ⟨s, hopen⟩ := hopen
    obtain ⟨y, hspill⟩ := exists_spill c
    obtain ⟨d, d', hd, hd', hname, -⟩ := definitionOf?_spill after hopen hspill ht hn hc
    rw [hd, hd', Option.map_some, Option.map_some, hname]
  · rw [definitionOf?_comment (not_exists.mp hopen) ht hn hc]

/-- It changes the members exactly if the line leaves its brace open and the comment spills. -/
theorem definitionOf?_comment_eq_iff (ht : t.getLast? ≠ some '/') (hn : '\n' ∉ t) (hc : '\n' ∉ c) :
    definitionOf? ((t ++ '/' :: '/' :: c) :: after) = definitionOf? (t :: after) ↔
      ∀ s y, LeavesOpen t s → Tail ('{' :: '/' :: '/' :: c) (some y) → SpillsNothing s y := by
  constructor
  · intro heq s y hopen hspill
    obtain ⟨d, d', hd, hd', -, hiff⟩ := definitionOf?_spill after hopen hspill ht hn hc
    rw [hd, hd'] at heq
    exact hiff.mp (Option.some.inj heq)
  · intro hspills
    by_cases hopen : ∃ s, LeavesOpen t s
    · obtain ⟨s, hopen⟩ := hopen
      obtain ⟨y, hspill⟩ := exists_spill c
      obtain ⟨d, d', hd, hd', -, hiff⟩ := definitionOf?_spill after hopen hspill ht hn hc
      rw [hd, hd', hiff.mpr (hspills s y hopen hspill)]
    · exact definitionOf?_comment (not_exists.mp hopen) ht hn hc

/-- **A comment behind a line changes no definition**, unless the line is a declaration that leaves its brace open, and
what is searched in the comment spills. -/
theorem definition?_append_comment (before after : List Text) (hline : ∀ e ∈ t, isTerminator e = false)
    (hcomment : ∀ e ∈ c, isTerminator e = false) (hend : t.getLast? ≠ some '/')
    (hlines : g.lines.map (·.text) = before ++ t :: after)
    (hlines' : g'.lines.map (·.text) = before ++ (t ++ '/' :: '/' :: c) :: after) :
    g'.definition?.map (·.name) = g.definition?.map (·.name) ∧
      (g'.definition? = g.definition? ↔ ∀ s y, before = [] → LeavesOpen t s → Tail ('{' :: '/' :: '/' :: c) (some y) →
        SpillsNothing s y) := by
  have hn : '\n' ∉ t := fun h => absurd (hline _ h) (by decide)
  have hc : '\n' ∉ c := fun h => absurd (hcomment _ h) (by decide)
  rw [Group.definition?_eq, Group.definition?_eq, hlines, hlines']
  cases before with
  | nil =>
    refine ⟨definitionOf?_name hend hn hc, (definitionOf?_comment_eq_iff hend hn hc).trans ?_⟩
    exact ⟨fun h s y _ => h s y, fun h s y => h s y rfl⟩
  | cons first before =>
    rw [List.cons_append, List.cons_append, definitionOf?_comment_behind first hend hc]
    exact ⟨rfl, iff_of_true rfl fun _ _ h => absurd h (List.cons_ne_nil _ _)⟩

end Groups

set_option maxRecDepth 4000 in
/-- A comment with a closing brace in it, and something else than a comment behind that, is cut off again. -/
theorem definition?_append_comment_braced :
    Group.definition? ⟨⟨"enum E \x7b A// B\x7d C, D".toList, 0⟩, [⟨"F".toList, 23⟩]⟩ =
      Group.definition? ⟨⟨"enum E \x7b A".toList, 0⟩, [⟨"F".toList, 11⟩]⟩ := by
  have hall : ∀ s ∈ ["enum E \x7b A".toList, " B\x7d C, D".toList], ∀ e ∈ s, isTerminator e = false := by
    have hall : ["enum E \x7b A".toList, " B\x7d C, D".toList].all (·.all (!isTerminator ·)) = true := by decide
    simpa using hall
  refine (definition?_append_comment [] ["F".toList] (hall "enum E \x7b A".toList (by simp))
    (hall " B\x7d C, D".toList (by simp)) (by decide) rfl rfl).2.mpr fun s y _ _ hspill => ?_
  have hnone : inlineBody? ("// B\x7d C, D".toList) = some [] := by decide
  have hy := (inlineBody?_eq_some_iff (by decide)).mpr hspill
  obtain rfl : [] = y := Option.some.inj (hnone.symm.trans hy)
  exact ⟨fun p hp => absurd hp List.not_mem_nil, fun h => absurd h.symm (List.cons_ne_nil _ _)⟩

set_option maxRecDepth 4000 in
/-- A text behind a comma in the comment becomes a member, and the slash in front of its last pair makes the last member
unreadable. -/
theorem definition?_comment_spilled :
    Group.definition? ⟨⟨"enum Color \x7b".toList, 0⟩, [⟨"Red,".toList, 13⟩, ⟨"\x7d;".toList, 18⟩]⟩ =
        some ⟨"Color".toList, ["Red".toList]⟩ ∧
      Group.definition? ⟨⟨"enum Color \x7b// warm, cold".toList, 0⟩, [⟨"Red,".toList, 26⟩, ⟨"\x7d;".toList, 31⟩]⟩ =
        some ⟨"Color".toList, ["cold".toList, "Red".toList]⟩ ∧
      Group.definition? ⟨⟨"enum E \x7b A".toList, 0⟩, []⟩ = some ⟨"E".toList, ["A".toList]⟩ ∧
      Group.definition? ⟨⟨"enum E \x7b A///\x7d x".toList, 0⟩, []⟩ = some ⟨"E".toList, []⟩ := by
  decide

end EnumStrings
