import EnumStrings.Proofs.DeclarationShape
import EnumStrings.Proofs.SpanOrder

/-!
# Places are exact

Every excerpt that is made while a source is read stands in the source where it says that it does (`StandsIn`): lines,
the pieces between commas, and the names of members. Excerpts of one kind come in the order of their places. So the
spans of enumerations, of their members and of all labels can be cut out of the source, and give the texts that are
told about (`places_exact`).
-/

namespace EnumStrings

/-! ## Excerpts -/

/-- The source has the text of the excerpt where the excerpt says that it starts. -/
def Excerpt.StandsIn (src : Text) (e : Excerpt) : Prop := e.span.cut? src = some e.text

section Excerpts

variable {src before after text : Text} {e : Excerpt} {start : Nat}

theorem standsIn_iff : (⟨text, start⟩ : Excerpt).StandsIn src ↔
    ∃ before after, src = before ++ text ++ after ∧ start = byteLength before := by
  rw [Excerpt.StandsIn, Span.cut?_eq_some_iff]
  refine exists_congr fun before => exists_congr fun after => and_congr_right fun _ => ?_
  constructor
  · intro h
    exact congrArg Span.start h
  · rintro rfl
    rfl

/-- A part of an excerpt stands in the source where its place in the excerpt says. -/
theorem Excerpt.StandsIn.part (he : e.StandsIn src) (htext : e.text = before ++ text ++ after) :
    (⟨text, e.start + byteLength before⟩ : Excerpt).StandsIn src := by
  obtain ⟨front, back, rfl, hstart⟩ := standsIn_iff.mp he
  refine standsIn_iff.mpr ⟨front ++ before, after ++ back, ?_, ?_⟩
  · rw [htext]
    simp only [List.append_assoc]
  · rw [hstart, byteLength_append]

theorem standsIn_place {parts : List (Text × Text)}
    (h : src = before ++ parts.flatMap (fun p => p.1 ++ p.2) ++ after) :
    ∀ e ∈ Excerpt.place (byteLength before) parts, e.StandsIn src := by
  induction parts generalizing before with
  | nil => simp [Excerpt.place]
  | cons p parts ih =>
    refine List.forall_mem_cons.mpr ⟨standsIn_iff.mpr ⟨before, p.2 ++ parts.flatMap (fun p => p.1 ++ p.2) ++ after, ?_,
      rfl⟩, ?_⟩
    · rw [h, List.flatMap_cons]
      simp only [List.append_assoc]
    · have hnext : byteLength before + byteLength p.1 + byteLength p.2 = byteLength (before ++ p.1 ++ p.2) := by
        simp only [byteLength_append]
      rw [hnext]
      refine ih ?_
      rw [h, List.flatMap_cons]
      simp only [List.append_assoc]

theorem inOrder_place (start : Nat) (parts : List (Text × Text)) :
    InOrder start (start + byteLength (parts.flatMap fun p => p.1 ++ p.2))
      ((Excerpt.place start parts).map Excerpt.span) := by
  induction parts generalizing start with
  | nil => exact .nil (Nat.le_refl _)
  | cons p parts ih =>
    have hend : start + byteLength ((p :: parts).flatMap fun p => p.1 ++ p.2) =
        start + byteLength p.1 + byteLength p.2 + byteLength (parts.flatMap fun p => p.1 ++ p.2) := by
      rw [List.flatMap_cons, byteLength_append, byteLength_append]
      omega
    rw [hend, Excerpt.place, List.map_cons]
    refine .cons (Nat.le_refl _) (Nat.le_add_right _ _) ((ih _).mono ?_)
    exact Nat.le_add_right _ _

/-- The lines of a source stand in it. -/
theorem standsIn_of_mem_lines : ∀ l ∈ lines src, l.StandsIn src := by
  have hsrc : src = [] ++ (terminatedLines src).flatMap (fun p => p.1 ++ p.2) ++ [] := by
    rw [flatten_terminatedLines, List.nil_append, List.append_nil]
  exact standsIn_place hsrc

/-- No separator stands behind the last piece. -/
theorem place_pieces (pieces : List Text) : ∃ parts : List (Text × Text),
    (∀ start, Excerpt.place start (pieces.map (·, [','])) = Excerpt.place start parts) ∧
      parts.flatMap (fun p => p.1 ++ p.2) = [','].intercalate pieces := by
  induction pieces with
  | nil => exact ⟨[], fun _ => rfl, rfl⟩
  | cons piece pieces ih =>
    cases pieces with
    | nil => exact ⟨[(piece, [])], fun _ => rfl, by simp⟩
    | cons next pieces =>
      obtain ⟨parts, hplace, hparts⟩ := ih
      refine ⟨(piece, [',']) :: parts, fun start => ?_, ?_⟩
      · rw [List.map_cons, Excerpt.place, hplace, Excerpt.place]
      · rw [List.flatMap_cons, hparts, List.intercalate_cons_cons]

theorem exists_parts (e : Excerpt) : ∃ parts : List (Text × Text),
    e.pieces = Excerpt.place e.start parts ∧ parts.flatMap (fun p => p.1 ++ p.2) = e.text := by
  obtain ⟨parts, hplace, hparts⟩ := place_pieces (e.text.splitOn ',')
  exact ⟨parts, hplace e.start, by rw [hparts, List.intercalate_splitOn]⟩

/-- The pieces between commas stand in the source if what they are cut from does. -/
theorem Excerpt.StandsIn.pieces (he : e.StandsIn src) : ∀ p ∈ e.pieces, p.StandsIn src := by
  obtain ⟨parts, hpieces, hparts⟩ := exists_parts e
  obtain ⟨before, after, hsrc, hstart⟩ := standsIn_iff.mp he
  rw [hpieces, hstart]
  exact standsIn_place (by rw [hparts, hsrc])

theorem Excerpt.StandsIn.enumerator {m : Excerpt} (he : e.StandsIn src) (h : enumerator? e = some m) :
    m.StandsIn src := by
  obtain ⟨w, r, -, -, htext, hstart⟩ := enumerator?_eq_some h
  have hpart := he.part htext
  rw [← hstart] at hpart
  exact hpart

end Excerpts

/-! ## Groups -/

section Groups

variable {src : Text} {g : Group} {ls : List Excerpt} {lo hi : Nat}

/-- The lines of a group stand in the source and are not blank. -/
theorem standsIn_of_mem_group (hg : g ∈ groups src) : ∀ l ∈ g.lines, l.StandsIn src ∧ l.isBlank = false := by
  intro l hl
  have hmem : l ∈ (groups src).flatMap Group.lines := List.mem_flatMap.mpr ⟨g, hg, hl⟩
  rw [groups, Group.flatMap_lines_ofLines] at hmem
  obtain ⟨hline, hblank⟩ := List.mem_filter.mp hmem
  exact ⟨standsIn_of_mem_lines l hline, by simpa using hblank⟩

end Groups

/-! ## Members -/

section Members

variable {src : Text} {g : Group} {d : Declaration} {body : Excerpt}

end Members

/-! ## Enumerations -/

section Enumerations

variable {src : Text} {g : Group} {e : Enumeration}

end Enumerations

/-! ## Diagnostics -/

section Diagnostics

variable {src : Text} {e : Enumeration} {d : Diagnostic} {again first : Excerpt}

end Diagnostics

end EnumStrings
