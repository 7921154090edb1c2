import EnumStrings.Proofs.DeclarationLine

/-!
# Qualifiers that are taken for names

A qualifier stands in front of a name, but it is a name itself as far as its letters go: where no other name comes next
on the line, it is read as the name of the enum (`ofGroup_qualifier`). A second qualifier behind the first one is such a
name, too.
-/

namespace EnumStrings

/-- The line starts with `enum` and the qualifier `q`, and `r` stands behind the qualifier. -/
structure Qualified (q r line : Text) : Prop where
  qualifier : q ∈ qualifiers
  ends : ∀ c ∈ r.head?, isWord c = false
  front : ∃ w v, Blanks w ∧ Blanks v ∧ v ≠ [] ∧ line = w ++ ("enum".toList ++ (v ++ (q ++ r)))

/-- The name `n` comes next, behind white space. -/
def NameNext (n r : Text) : Prop :=
  ∃ v s, Blanks v ∧ v ≠ [] ∧ EnumName n ∧ (∀ c ∈ s.head?, isWord c = false) ∧ r = v ++ (n ++ s)

/-- What may stand behind the name on a declaration line. -/
def EndsDeclaration (r : Text) : Prop :=
  ∃ u w t searched, UnderlyingPart u ∧ Blanks w ∧ Tail t searched ∧ r = u ++ (w ++ t)

section Words

variable {n r : Text}

/-- The name that comes next is read. -/
theorem nameNext_iff : NameNext n r ↔ ∃ s, nextName? r = some (n, s) := by
  constructor
  · rintro ⟨v, s, hv, hne, hn, hs, rfl⟩
    exact ⟨s, nextName?_append hv hne hn hs⟩
  · rintro ⟨s, h⟩
    obtain ⟨v, hv, hne, hn, hs, rfl⟩ := exists_blanks_of_nextName? h
    exact ⟨v, s, hv, hne, hn, hs, rfl⟩

theorem nextName?_eq_none (h : ∀ n, ¬ NameNext n r) : nextName? r = none := by
  cases hr : nextName? r with
  | none => rfl
  | some p => exact absurd (nameNext_iff.mpr ⟨p.2, hr⟩) (h p.1)

end Words

section Lines

variable {q r line : Text} {d : Declaration}

/-- A line with a qualifier is read with the name that comes next, or else with the qualifier for a name. -/
theorem Qualified.ofLine?_eq (h : Qualified q r line) : Declaration.ofLine? line =
    (skipUnderlying? ((nextName? r).getD (q, r)).2).bind
      (Declaration.ofTail? ((nextName? r).getD (q, r)).1 (byteLength line)) := by
  obtain ⟨hq, hr, w, v, hw, hv, hne, rfl⟩ := h
  rw [Declaration.ofLine?_eq, keyword?_enum hw, Option.bind_some,
    declaredName?_word hv hne (enumName_of_mem_qualifiers hq) hr, if_pos hq, Option.bind_some]

/-- A name that is a qualifier stands on a line with a qualifier. -/
theorem exists_qualified_of_ofLine? (h : Declaration.ofLine? line = some d) (hname : d.name ∈ qualifiers) :
    ∃ q r, Qualified q r line := by
  obtain ⟨w, hw, hline⟩ := exists_blanks line
  rw [Declaration.ofLine?_eq] at h
  obtain ⟨s, hs, h⟩ := Option.bind_eq_some_iff.mp h
  obtain ⟨p, hp, h⟩ := Option.bind_eq_some_iff.mp h
  obtain ⟨t, -, htail⟩ := Option.bind_eq_some_iff.mp h
  obtain ⟨v, word, r, hv, hne, -, hr, rfl, hread⟩ := exists_word_of_declaredName? hp
  have hmem : word ∈ qualifiers := by
    by_contra hnot
    rw [if_neg hnot] at hread
    rw [Declaration.name_of_ofTail? htail, hread] at hname
    exact hnot hname
  refine ⟨word, r, hmem, hr, w, v, hw, hv, hne, ?_⟩
  rw [← eq_append_of_keyword? hs]
  exact hline

/-- The name on a line with a qualifier is the one that comes next, or else the qualifier. -/
theorem Qualified.name_eq (h : Qualified q r line) (hd : Declaration.ofLine? line = some d) :
    d.name = ((nextName? r).getD (q, r)).1 := by
  rw [h.ofLine?_eq] at hd
  obtain ⟨t, -, htail⟩ := Option.bind_eq_some_iff.mp hd
  exact Declaration.name_of_ofTail? htail

/-- If no name comes next, the qualifier is the name wherever a name could stand. -/
theorem Qualified.ofLine?_unnamed (h : Qualified q r line) (hnone : ∀ n, ¬ NameNext n r) (hn : '\n' ∉ line) :
    (∃ d, Declaration.ofLine? line = some d) ↔ EndsDeclaration r := by
  have hr : '\n' ∉ r := by
    obtain ⟨-, -, w, v, -, -, -, rfl⟩ := h
    intro hr
    apply hn
    simp [hr]
  rw [h.ofLine?_eq, nextName?_eq_none hnone, Option.getD_none]
  constructor
  · rintro ⟨d, hd⟩
    obtain ⟨s, hs, htail⟩ := Option.bind_eq_some_iff.mp hd
    obtain ⟨u, w, hu, hw, rfl⟩ := exists_underlying_of_skipUnderlying? hs
    have hs' : '\n' ∉ s := fun h => hr (List.mem_append_right _ (List.mem_append_right _ h))
    obtain ⟨v, t, hv, ht, rfl⟩ := exists_tail_of_ofTail? htail hs'
    exact ⟨u, w ++ v, t, _, hu, List.forall_mem_append.mpr ⟨hw, hv⟩, ht, by rw [List.append_assoc w v t]⟩
  · rintro ⟨u, w, t, searched, hu, hw, ht, rfl⟩
    have ht' : '\n' ∉ t := fun h => hr (List.mem_append_right _ (List.mem_append_right _ h))
    obtain ⟨d, hd, -, -⟩ := ht.ofTail? ht' q (byteLength line)
    exact ⟨d, by rw [skipUnderlying?_append hu hw ht.endsHead, Option.bind_some, hd]⟩

end Lines

/-- **When a qualifier is taken for the name**: exactly if it stands behind `enum` and no name comes next, except
perhaps another qualifier. -/
theorem ofGroup_qualifier (g : Group) :
    (∀ e, Enumeration.ofGroup g = .ok e → (e.name ∈ qualifiers ↔
        ∃ q r, Qualified q r g.declaration.text ∧ ∀ n, NameNext n r → n ∈ qualifiers) ∧
      ∀ q r n, Qualified q r g.declaration.text → NameNext n r → e.name = n) ∧
    ((∀ c ∈ g.declaration.text, isTerminator c = false) → ∀ q r, Qualified q r g.declaration.text →
      (∀ n, ¬ NameNext n r) →
        (EndsDeclaration r → ∃ e, Enumeration.ofGroup g = .ok e ∧ e.name = q) ∧
        (¬ EndsDeclaration r → Enumeration.ofGroup g = .error (.notADeclaration g.declaration))) := by
  constructor
  · intro e he
    obtain ⟨d, hd, rfl⟩ := Enumeration.ofGroup_inv he
    have hnamed : ∀ q r n, Qualified q r g.declaration.text → NameNext n r → d.name = n := by
      intro q r n hline hnext
      obtain ⟨s, hs⟩ := nameNext_iff.mp hnext
      rw [hline.name_eq hd, hs, Option.getD_some]
    refine ⟨⟨fun hname => ?_, ?_⟩, hnamed⟩
    · obtain ⟨q, r, hline⟩ := exists_qualified_of_ofLine? hd hname
      exact ⟨q, r, hline, fun n hnext => hnamed q r n hline hnext ▸ hname⟩
    · rintro ⟨q, r, hline, hnames⟩
      show d.name ∈ qualifiers
      rw [hline.name_eq hd]
      cases hnext : nextName? r with
      | none => exact hline.qualifier
      | some p => exact hnames p.1 (nameNext_iff.mpr ⟨p.2, hnext⟩)
  · intro hterminated q r hline hnone
    have hn : '\n' ∉ g.declaration.text := fun h => absurd (hterminated _ h) (by decide)
    have haccepted := hline.ofLine?_unnamed hnone hn
    constructor
    · intro hends
      obtain ⟨d, hd⟩ := haccepted.mpr hends
      obtain ⟨e, he, hname, -, -⟩ := Enumeration.ofGroup_eq_ok hd
      refine ⟨e, he, ?_⟩
      rw [hname, hline.name_eq hd, nextName?_eq_none hnone, Option.getD_none]
    · intro hends
      have hd : Declaration.ofLine? g.declaration.text = none := by
        cases hd : Declaration.ofLine? g.declaration.text with
        | none => rfl
        | some d => exact absurd (haccepted.mp ⟨d, hd⟩) hends
      rw [Enumeration.ofGroup, hd]

set_option maxRecDepth 4000 in
/-- The qualifier stands in front of an underlying type, or in front of something that no name has behind it. -/
theorem ofGroup_qualifier_typed :
    (∃ e, Enumeration.ofGroup ⟨⟨"enum struct : int".toList, 0⟩, [⟨"A,".toList, 18⟩]⟩ = .ok e ∧
        e.name = "struct".toList) ∧
      Enumeration.ofGroup ⟨⟨"enum class = \x7b".toList, 0⟩, []⟩ =
        .error (.notADeclaration ⟨"enum class = \x7b".toList, 0⟩) := by
  have hterminated : ∀ s ∈ ["enum struct : int".toList, "enum class = \x7b".toList],
      ∀ c ∈ s, isTerminator c = false := by
    have hall : ["enum struct : int".toList, "enum class = \x7b".toList].all (·.all (!isTerminator ·)) = true := by
      decide
    simpa using hall
  constructor
  · have hline : Qualified "struct".toList " : int".toList "enum struct : int".toList :=
      ⟨by decide, forall_head?_cons (isWord_eq_false_of_isBlank (by decide)) _, [], [' '], by decide, by decide,
        by decide, by decide⟩
    have hnone : ∀ n, ¬ NameNext n " : int".toList := by
      intro n hnext
      obtain ⟨s, hs⟩ := nameNext_iff.mp hnext
      cases hs
    have hint : TypeWords "int".toList :=
      .one (.mk (by decide) fun c hc => List.all_eq_true.mp (by decide : "nt".toList.all isTypeChar = true) c hc)
    have hends : EndsDeclaration " : int".toList :=
      ⟨_, [], [], none, .present (w := [' ']) (v := [' ']) (by decide) (by decide) hint, by decide, .plain .absent,
        by decide⟩
    exact ((ofGroup_qualifier _).2 (hterminated _ (by simp)) _ _ hline hnone).1 hends
  · have hline : Qualified "class".toList " = \x7b".toList "enum class = \x7b".toList :=
      ⟨by decide, forall_head?_cons (isWord_eq_false_of_isBlank (by decide)) _, [], [' '], by decide, by decide,
        by decide, by decide⟩
    have hnone : ∀ n, ¬ NameNext n " = \x7b".toList := by
      intro n hnext
      obtain ⟨s, hs⟩ := nameNext_iff.mp hnext
      cases hs
    have hends : ¬ EndsDeclaration " = \x7b".toList := by
      rw [← hline.ofLine?_unnamed hnone (by decide)]
      rintro ⟨d, hd⟩
      cases hd
    exact ((ofGroup_qualifier _).2 (hterminated _ (by simp)) _ _ hline hnone).2 hends

set_option maxRecDepth 2000 in
/-- The qualifier stands in front of an opening brace. -/
theorem ofGroup_qualifier_braced :
    ∃ e, Enumeration.ofGroup ⟨⟨"enum class \x7b".toList, 0⟩, []⟩ = .ok e ∧ e.name = "class".toList ∧
      "class".toList ∈ qualifiers := by
  have hd : Declaration.ofLine? "enum class \x7b".toList = some ⟨"class".toList, some ⟨[], 12⟩⟩ := by decide
  obtain ⟨e, he, hname, -, -⟩ := Enumeration.ofGroup_eq_ok (g := ⟨⟨"enum class \x7b".toList, 0⟩, []⟩) hd
  exact ⟨e, he, hname, by decide⟩

end EnumStrings
