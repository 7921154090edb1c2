import EnumStrings.Proofs.DeclarationShape

/-!
# Which lines declare an enum

A declaration line is a head, white space and a tail (`DeclarationLine`). The tail is a comment or nothing, or an
opening brace with more behind it, and it tells which text on the line is searched for members (`Tail`): all that
stands behind the brace if no closing brace does, and otherwise what stands between the braces. Where something other
than a semicolon and a comment stands behind the closing brace, a comment has to start between the braces; the search
ends at the last pair of slashes there (`BeforeLastSlashes`).

Each reader of a tail reads exactly this (`beforeLastSlashes?_eq_some_iff`, `isTrailing_skipSemicolon_iff`,
`inlineBody?_eq_some_iff`), so a line declares an enum exactly if it is a declaration line, and there is only one way
to take it apart (`ofGroup_declarationLine`).
-/

namespace EnumStrings

/-! ## Tails -/

/-- What may stand behind the closing brace: a semicolon and a comment, or one of them, or nothing. -/
inductive AfterBrace : Text → Prop
  | mk {k w c : Text} : SemicolonPart k → Blanks w → CommentPart c → AfterBrace (k ++ (w ++ c))

/-- The text `x` is what stands in front of the last pair of slashes in `b`. A slash may belong to two pairs. -/
def BeforeLastSlashes (b x : Text) : Prop := ∃ y, b = x ++ '/' :: '/' :: y ∧ ¬ ['/', '/'] <:+: '/' :: y

/-- What may stand behind the head of a declaration line, and the text in it that is searched for members. -/
inductive Tail : Text → Option Text → Prop
  | plain {c : Text} : CommentPart c → Tail c none
  | unclosed {s : Text} : '}' ∉ s → Tail ('{' :: s) (some s)
  | closed {b u : Text} : '}' ∉ b → AfterBrace u → Tail ('{' :: (b ++ '}' :: u)) (some b)
  | commented {b u x : Text} : '}' ∉ b → ¬ AfterBrace u → BeforeLastSlashes b x →
      Tail ('{' :: (b ++ '}' :: u)) (some x)

/-- The line declares the enum `name`, and `searched` is the text on it that is searched for members. -/
def DeclarationLine (name : Text) (searched : Option Text) (line : Text) : Prop :=
  ∃ h w r, Head name h ∧ Blanks w ∧ Tail r searched ∧ line = h ++ (w ++ r)

/-! ## Comments -/

section Comments

variable {s b x u : Text}

theorem commentPart_of_isComment (h : isComment s = true) : CommentPart s := by
  unfold isComment at h
  split at h
  · exact .present (by simpa using h)
  · cases h

/-- A text that may end a line is white space, perhaps with a comment behind it. -/
theorem isTrailing_iff : isTrailing s = true ↔ ∃ w c, Blanks w ∧ CommentPart c ∧ s = w ++ c := by
  constructor
  · intro h
    obtain ⟨w, hw, hs⟩ := exists_blanks s
    refine ⟨w, skipBlanks s, hw, ?_, hs⟩
    rcases Bool.or_eq_true_iff.mp h with hempty | hcomment
    · rw [List.isEmpty_iff.mp hempty]
      exact .absent
    · exact commentPart_of_isComment hcomment
  · rintro ⟨w, c, hw, hc, rfl⟩
    exact isTrailing_append hw hc

/-- Without a pair of slashes there is nothing in front of the last one. -/
theorem beforeLastSlashes?_eq_none_iff : beforeLastSlashes? b = none ↔ ¬ ['/', '/'] <:+: b := by
  induction b with
  | nil => simp [beforeLastSlashes?]
  | cons c b ih =>
    have hpair : ['/', '/'] <+: c :: b ↔ c = '/' ∧ b.head? = some '/' := by
      cases b with
      | nil => simp
      | cons d b => simp [eq_comm]
    rw [List.infix_cons_iff, hpair, beforeLastSlashes?]
    cases hb : beforeLastSlashes? b with
    | some before =>
      have hmem : ['/', '/'] <:+: b := by
        by_contra h
        rw [ih.mpr h] at hb
        cases hb
      simp [hmem]
    | none =>
      have hnot : ¬ ['/', '/'] <:+: b := ih.mp hb
      simp [hnot]

theorem beforeLastSlashes?_eq_some_iff : beforeLastSlashes? b = some x ↔ BeforeLastSlashes b x := by
  constructor
  · intro h
    induction b generalizing x with
    | nil => cases h
    | cons c b ih =>
      rw [beforeLastSlashes?] at h
      cases hb : beforeLastSlashes? b with
      | some before =>
        rw [hb] at h
        obtain rfl := Option.some.inj h
        obtain ⟨y, rfl, hy⟩ := ih hb
        exact ⟨y, rfl, hy⟩
      | none =>
        rw [hb] at h
        dsimp only at h
        split at h
        · rename_i hpair
          obtain ⟨rfl, hhead⟩ := hpair
          obtain ⟨y, rfl⟩ : ∃ y, b = '/' :: y := List.head?_eq_some_iff.mp hhead
          obtain rfl := Option.some.inj h
          exact ⟨y, rfl, beforeLastSlashes?_eq_none_iff.mp hb⟩
        · cases h
  · rintro ⟨y, rfl, hy⟩
    induction x with
    | nil =>
      rw [List.nil_append, beforeLastSlashes?, beforeLastSlashes?_eq_none_iff.mpr hy]
      rfl
    | cons c x ih => rw [List.cons_append, beforeLastSlashes?, ih]

/-- Some pair of slashes is the last one. -/
theorem exists_beforeLastSlashes (h : ['/', '/'] <:+: b) : ∃ x, BeforeLastSlashes b x := by
  cases hb : beforeLastSlashes? b with
  | none => exact absurd h (beforeLastSlashes?_eq_none_iff.mp hb)
  | some x => exact ⟨x, beforeLastSlashes?_eq_some_iff.mp hb⟩

/-- A text with nothing but a semicolon and a comment is what may stand behind the closing brace. -/
theorem isTrailing_skipSemicolon_iff : isTrailing (skipSemicolon u) = true ↔ AfterBrace u := by
  constructor
  · intro h
    obtain ⟨v, hv, hu⟩ := exists_blanks u
    obtain ⟨w, c, hw, hc, hrest⟩ := isTrailing_iff.mp h
    unfold skipSemicolon at hrest
    split at hrest
    · rename_i s hsemicolon
      rw [hu, hsemicolon, hrest, ← List.singleton_append, ← List.append_assoc]
      exact .mk (.present hv) hw hc
    · rw [hu, hrest, ← List.append_assoc]
      exact .mk (k := []) .absent (List.forall_mem_append.mpr ⟨hv, hw⟩) hc
  · rintro ⟨hk, hw, hc⟩
    exact isTrailing_skipSemicolon hk hw hc

end Comments

/-! ## Reading a tail -/

section Tails

variable {s b u r x name : Text} {searched : Option Text} {length : Nat} {d : Declaration}

/-- If something else than a comment stands behind the closing brace, a comment has to start in front of it. -/
theorem inlineBody?_closing (hb : '}' ∉ b) (u : Text) : inlineBody? (b ++ '}' :: u) =
    if isTrailing (skipSemicolon u) then some b
    else (beforeLastSlashes? b).filter fun x => isComment ((b ++ '}' :: u).drop x.length) := by
  obtain ⟨htake, hdrop⟩ := span_append_of_head hb (rfl : ('}' :: u).head? = some '}')
  simp only [inlineBody?, htake, hdrop]
  split
  · rfl
  · cases beforeLastSlashes? b with
    | none => rfl
    | some x =>
      cases hx : isComment ((b ++ '}' :: u).drop x.length) <;> simp [hx, guard, Option.filter]

/-- If a closing brace stands behind members, what follows it decides where the search for them ends. -/
theorem inlineBody?_brace (hb : '}' ∉ b) (hn : '\n' ∉ b ++ '}' :: u) :
    inlineBody? (b ++ '}' :: u) = if isTrailing (skipSemicolon u) then some b else beforeLastSlashes? b := by
  rw [inlineBody?_closing hb]
  split
  · rfl
  · cases hx : beforeLastSlashes? b with
    | none => rfl
    | some x =>
      obtain ⟨y, rfl, -⟩ := beforeLastSlashes?_eq_some_iff.mp hx
      have hrest : (x ++ '/' :: '/' :: y ++ '}' :: u).drop x.length = '/' :: '/' :: (y ++ '}' :: u) := by
        rw [List.append_assoc, List.drop_left]
        rfl
      have hline : '\n' ∉ y ++ '}' :: u := by
        intro h
        apply hn
        rw [List.append_assoc]
        exact List.mem_append_right x (List.mem_cons_of_mem _ (List.mem_cons_of_mem _ h))
      rw [Option.filter_some, hrest, if_pos (by simpa [isComment] using hline)]

/-- The text behind an opening brace that is searched for members is that of the tail. -/
theorem inlineBody?_eq_some_iff (hn : '\n' ∉ s) : inlineBody? s = some x ↔ Tail ('{' :: s) (some x) := by
  constructor
  · intro h
    by_cases hbrace : '}' ∈ s
    · obtain ⟨b, u, rfl, hb⟩ := List.eq_append_cons_of_mem hbrace
      rw [inlineBody?_brace hb hn] at h
      split at h
      · rename_i hu
        obtain rfl := Option.some.inj h
        exact .closed hb (isTrailing_skipSemicolon_iff.mp hu)
      · rename_i hu
        exact .commented hb (mt isTrailing_skipSemicolon_iff.mpr hu) (beforeLastSlashes?_eq_some_iff.mp h)
    · rw [inlineBody?_open hbrace] at h
      obtain rfl := Option.some.inj h
      exact .unclosed hbrace
  · intro h
    cases h with
    | unclosed hs => exact inlineBody?_open hs
    | closed hb hu => rw [inlineBody?_brace hb hn, if_pos (isTrailing_skipSemicolon_iff.mpr hu)]
    | commented hb hu hx =>
      rw [inlineBody?_brace hb hn, if_neg (mt isTrailing_skipSemicolon_iff.mp hu)]
      exact beforeLastSlashes?_eq_some_iff.mpr hx

/-- A tail is a comment, or an opening brace and members: the closing brace is missing, or ends the line, or stands
behind a pair of slashes. -/
theorem exists_tail_iff : (∃ searched, Tail r searched) ↔ CommentPart r ∨ ∃ s, r = '{' :: s ∧
    ('}' ∉ s ∨ ∃ b u, s = b ++ '}' :: u ∧ '}' ∉ b ∧ (AfterBrace u ∨ ['/', '/'] <:+: b)) := by
  constructor
  · rintro ⟨searched, h⟩
    cases h with
    | plain hc => exact Or.inl hc
    | unclosed hs => exact Or.inr ⟨_, rfl, Or.inl hs⟩
    | closed hb hu => exact Or.inr ⟨_, rfl, Or.inr ⟨_, _, rfl, hb, Or.inl hu⟩⟩
    | @commented _ _ x hb hu hx =>
      obtain ⟨y, rfl, -⟩ := hx
      exact Or.inr ⟨_, rfl, Or.inr ⟨_, _, rfl, hb, Or.inr ⟨x, y, List.append_assoc ..⟩⟩⟩
  · rintro (hc | ⟨s, rfl, hs | ⟨b, u, rfl, hb, hend⟩⟩)
    · exact ⟨none, .plain hc⟩
    · exact ⟨some s, .unclosed hs⟩
    · by_cases hu : AfterBrace u
      · exact ⟨some b, .closed hb hu⟩
      · obtain ⟨x, hx⟩ := exists_beforeLastSlashes (hend.resolve_left hu)
        exact ⟨some x, .commented hb hu hx⟩

/-- A tail starts with a slash or a brace, if it is not empty. -/
theorem Tail.endsHead (h : Tail r searched) : EndsHead r := by
  have hslash : isTypeChar '/' = false := isTypeChar_delimiter (by decide) (by decide)
  have hbrace : isTypeChar '{' = false := isTypeChar_delimiter (by decide) (by decide)
  cases h with
  | plain hc =>
    intro d hd
    rw [hc.head d hd]
    exact ⟨by decide, hslash⟩
  | unclosed _ | closed _ _ | commented _ _ _ => exact forall_head?_cons ⟨by decide, hbrace⟩ _

/-- A tail is read with the text that is searched for members. -/
theorem Tail.ofTail? (h : Tail r searched) (hn : '\n' ∉ r) (name : Text) (length : Nat) :
    ∃ d, Declaration.ofTail? name length r = some d ∧ d.name = name ∧ d.body.map (·.text) = searched := by
  cases searched with
  | none =>
    cases h with
    | plain hc =>
      have ht : isTrailing r = true := isTrailing_append (w := []) (by simp [Blanks]) hc
      refine ⟨⟨name, none⟩, ?_, rfl, rfl⟩
      cases hc with
      | absent => rfl
      | present _ => simp [Declaration.ofTail?, ht]
  | some x =>
    obtain ⟨s, rfl⟩ : ∃ s, r = '{' :: s := by
      cases h with
      | unclosed _ | closed _ _ | commented _ _ _ => exact ⟨_, rfl⟩
    have hx := (inlineBody?_eq_some_iff fun hs => hn (List.mem_cons_of_mem _ hs)).mpr h
    exact ⟨⟨name, some ⟨x, length - byteLength s⟩⟩, by rw [Declaration.ofTail?, hx, Option.map_some], rfl, rfl⟩

/-- What is read as a tail is one, behind white space. -/
theorem exists_tail_of_ofTail? (h : Declaration.ofTail? name length r = some d) (hn : '\n' ∉ r) :
    ∃ w t, Blanks w ∧ Tail t (d.body.map (·.text)) ∧ r = w ++ t := by
  rcases Declaration.ofTail?_eq_some h with ⟨s, body, rfl, hbody, rfl⟩ | ⟨htrailing, rfl⟩
  · have hs : '\n' ∉ s := fun hs => hn (List.mem_cons_of_mem _ hs)
    exact ⟨[], _, by simp [Blanks], (inlineBody?_eq_some_iff hs).mp hbody, rfl⟩
  · obtain ⟨w, c, hw, hc, rfl⟩ := isTrailing_iff.mp htrailing
    exact ⟨w, c, hw, .plain hc, rfl⟩

end Tails

/-! ## Reading a line -/

section Lines

variable {line name name' : Text} {searched searched' : Option Text} {d : Declaration} {g : Group}

/-- A declaration line is read as it is written. -/
theorem DeclarationLine.ofLine? (h : DeclarationLine name searched line) (hn : '\n' ∉ line) :
    ∃ d, Declaration.ofLine? line = some d ∧ d.name = name ∧ d.body.map (·.text) = searched := by
  obtain ⟨head, w, r, hhead, hw, htail, rfl⟩ := h
  have hr : '\n' ∉ r := fun hr => hn (List.mem_append_right _ (List.mem_append_right _ hr))
  rw [ofLine?_head hhead hw htail.endsHead]
  exact htail.ofTail? hr name _

/-- What is read as a declaration is written on a declaration line. -/
theorem declarationLine_of_ofLine? (h : Declaration.ofLine? line = some d) (hn : '\n' ∉ line) :
    DeclarationLine d.name (d.body.map (·.text)) line := by
  obtain ⟨head, w, r, hhead, hw, rfl, htail⟩ := exists_head_of_ofLine? h
  have hr : '\n' ∉ r := fun hr => hn (List.mem_append_right _ (List.mem_append_right _ hr))
  obtain ⟨v, t, hv, ht, rfl⟩ := exists_tail_of_ofTail? htail hr
  exact ⟨head, w ++ v, t, hhead, List.forall_mem_append.mpr ⟨hw, hv⟩, ht, by rw [List.append_assoc w v t]⟩

/-- A line can be taken apart in one way only, as far as its name and its members go. -/
theorem DeclarationLine.unique (h : DeclarationLine name searched line) (h' : DeclarationLine name' searched' line)
    (hn : '\n' ∉ line) : name = name' ∧ searched = searched' := by
  obtain ⟨d, hd, rfl, rfl⟩ := h.ofLine? hn
  obtain ⟨d', hd', rfl, rfl⟩ := h'.ofLine? hn
  rw [hd] at hd'
  obtain rfl := Option.some.inj hd'
  exact ⟨rfl, rfl⟩

/-- **A group is an enumeration exactly if it starts with a declaration line**, which can be taken apart in one way only
and tells the name and the members. -/
theorem ofGroup_declarationLine (hline : ∀ c ∈ g.declaration.text, isTerminator c = false) :
    ((∃ e, Enumeration.ofGroup g = .ok e) ↔ ∃ name h w r, Head name h ∧ Blanks w ∧ g.declaration.text = h ++ (w ++ r) ∧
      (CommentPart r ∨ ∃ s, r = '{' :: s ∧
        ('}' ∉ s ∨ ∃ b u, s = b ++ '}' :: u ∧ '}' ∉ b ∧ (AfterBrace u ∨ ['/', '/'] <:+: b)))) ∧
      (∀ name searched name' searched', DeclarationLine name searched g.declaration.text →
        DeclarationLine name' searched' g.declaration.text → name = name' ∧ searched = searched') ∧
      ∀ name searched, DeclarationLine name searched g.declaration.text →
        ∃ e, Enumeration.ofGroup g = .ok e ∧ e.name = name ∧ e.memberNames =
          ((searched.map (·.splitOn ',')).getD [] ++ g.body.map (·.text)).filterMap memberName? := by
  have hn : '\n' ∉ g.declaration.text := fun h => absurd (hline _ h) (by decide)
  have hread : ∀ name searched, DeclarationLine name searched g.declaration.text →
      ∃ e, Enumeration.ofGroup g = .ok e ∧ e.name = name ∧ e.memberNames =
        ((searched.map (·.splitOn ',')).getD [] ++ g.body.map (·.text)).filterMap memberName? := by
    intro name searched h
    obtain ⟨d, hd, rfl, rfl⟩ := h.ofLine? hn
    obtain ⟨e, he, hname, -, hmembers⟩ := Enumeration.ofGroup_eq_ok hd
    refine ⟨e, he, hname, ?_⟩
    rw [hmembers, Declaration.pieces]
    cases d.body with
    | none => rfl
    | some body => rfl
  refine ⟨⟨?_, ?_⟩, fun _ _ _ _ h h' => h.unique h' hn, hread⟩
  · rintro ⟨e, he⟩
    obtain ⟨d, hd, -⟩ := Enumeration.ofGroup_inv he
    obtain ⟨head, w, r, hhead, hw, htail, hparts⟩ := declarationLine_of_ofLine? hd hn
    exact ⟨_, head, w, r, hhead, hw, hparts, exists_tail_iff.mp ⟨_, htail⟩⟩
  · rintro ⟨name, head, w, r, hhead, hw, hparts, hr⟩
    obtain ⟨searched, htail⟩ := exists_tail_iff.mpr hr
    obtain ⟨e, he, -, -⟩ := hread name searched ⟨head, w, r, hhead, hw, htail, hparts⟩
    exact ⟨e, he⟩

end Lines

set_option maxRecDepth 2000 in
/-- No name follows `class`, so that it is the name, and the members end at the last pair of slashes. -/
theorem ofGroup_declarationLine_commented :
    (∀ c ∈ "enum class\t\x7bA, B // C///\x7d D".toList, isTerminator c = false) ∧
      ∃ e, Enumeration.ofGroup ⟨⟨"enum class\t\x7bA, B // C///\x7d D".toList, 0⟩, [⟨"E,".toList, 24⟩]⟩ = .ok e ∧
        e.name = "class".toList ∧ e.memberNames = ["A".toList, "B".toList, "E".toList] := by
  have hline : ∀ c ∈ "enum class\t\x7bA, B // C///\x7d D".toList, isTerminator c = false := by
    have hall : "enum class\t\x7bA, B // C///\x7d D".toList.all (!isTerminator ·) = true := by decide
    simpa using hall
  have hhead : Head "class".toList "enum class".toList :=
    .mk (w := []) (by decide) .absent (v := [' ']) (by decide) (by decide)
      (enumName_of_mem_qualifiers (by decide)) .absent
  have hbehind : ¬ AfterBrace " D".toList := mt isTrailing_skipSemicolon_iff.mpr (by decide)
  have hslashes : BeforeLastSlashes "A, B // C///".toList "A, B // C/".toList :=
    beforeLastSlashes?_eq_some_iff.mp (by decide)
  have htail : Tail ('{' :: ("A, B // C///".toList ++ '}' :: " D".toList)) (some "A, B // C/".toList) :=
    .commented (by decide) hbehind hslashes
  refine ⟨hline, ?_⟩
  obtain ⟨-, -, hread⟩ :=
    ofGroup_declarationLine (g := ⟨⟨"enum class\t\x7bA, B // C///\x7d D".toList, 0⟩, [⟨"E,".toList, 24⟩]⟩) hline
  obtain ⟨e, he, hname, hmembers⟩ := hread _ _ ⟨_, ['\t'], _, hhead, by decide, htail, by decide⟩
  exact ⟨e, he, hname, hmembers.trans (by decide)⟩

end EnumStrings
