import EnumStrings.Proofs.Composition
import EnumStrings.Proofs.RoundTrip
import EnumStrings.Proofs.TrimmedLines

/-!
# Generated text tells what it is generated from

Two texts that go on in any way are compared from the front, and each part that depends on the names is delimited by
what follows it.

* In the first line below the first banner, the name of the enum ends with a space (`Conversion.name_inj`).
* Up to the branches that make strings, nothing but the name and the options is written (`Conversion.steps_eq`,
  `Conversion.front_congr`). Every branch starts with another letter than the line behind the last one, its member ends
  with a colon and its string with a quotation mark, so the branches are told one after the other
  (`Conversion.branches_inj`).

So the text of one enumeration tells its definition, whatever follows (`definition_inj`), and a text tells all
definitions, one after the other (`generatedText_injective`).
-/

namespace EnumStrings

/-! ## What steps write -/

namespace Layout

variable {l : Layout}

/-- The text that steps add. -/
def written (l : Layout) (steps : List Step) : Text := (l.run (steps.flatMap Step.instructions)).1

/-- What some steps write stands in front of what others write, and of all that follows. -/
theorem written_append {steps : List Step} (hl : l.midLine = false) (hs : ∀ s ∈ steps, s.isWhole = true)
    (others : List Step) (x : Text) :
    l.written (steps ++ others) ++ x = l.written steps ++ ((steps.foldl Step.next l).written others ++ x) := by
  rw [written, List.flatMap_append, run_append, run_flatMap hl hs, ← List.append_assoc]
  rfl

/-- A line is indented, and the rest is written below it. -/
theorem written_line (hl : l.midLine = false) (s : Text) (steps : List Step) (x : Text) :
    l.written (.line s :: steps) ++ x =
      l.lineStart ++ (s ++ '\n' :: (written { l with gap := .unasked } steps ++ x)) := by
  obtain ⟨depth, midLine, gap⟩ := l
  subst hl
  simp [written, Step.instructions, run, perform]

end Layout

/-! ## The branches of a switch -/

section Branches

variable {c : Conversion} {l : Layout} {x y : Text}

/-- A member that a colon can end, with a string that a quotation mark can. -/
def Delimited (p : Text × Text) : Prop := ':' ∉ p.1 ∧ '"' ∉ p.2

/-- A branch tells its member and its string. -/
theorem Conversion.caseLine_inj {p q : Text × Text} {s t : Text} (hp : Delimited p) (hq : Delimited q)
    (h : c.caseLine p.1 p.2 ++ s = c.caseLine q.1 q.2 ++ t) : p = q ∧ s = t := by
  unfold caseLine at h
  simp only [List.append_assoc] at h
  obtain ⟨hmember, h⟩ := append_inj_of_head hp.1 hq.1 rfl rfl
    (List.append_cancel_left (List.append_cancel_left (List.append_cancel_left h)))
  obtain ⟨htext, h⟩ := append_inj_of_head hp.2 hq.2 rfl rfl (List.append_cancel_left h)
  exact ⟨Prod.ext hmember htext, List.append_cancel_left h⟩

/-- A branch is not the line behind all branches. -/
theorem Conversion.caseLine_ne {p : Text × Text} {s t : Text} :
    c.caseLine p.1 p.2 ++ s ≠ "default: return \"\";".toList ++ t := by
  intro h
  have hcase : (c.caseLine p.1 p.2 ++ s).head? = some 'c' := rfl
  have hdefault : ("default: return \"\";".toList ++ t).head? = some 'd' := rfl
  rw [h, hdefault] at hcase
  exact absurd (Option.some.inj hcase) (by decide)

/-- The branches of a switch, and the line behind them. -/
def Conversion.branches (c : Conversion) (cases : List (Text × Text)) (behind : List Step) : List Step :=
  cases.map (fun (member, text) => .line (c.caseLine member text)) ++
    .line "default: return \"\";".toList :: behind

/-- The branches of a switch are told one after the other. -/
theorem Conversion.branches_inj {ps qs : List (Text × Text)} {steps steps' : List Step} (hl : l.midLine = false)
    (hp : ∀ p ∈ ps, Delimited p) (hq : ∀ q ∈ qs, Delimited q)
    (h : l.written (c.branches ps steps) ++ x = l.written (c.branches qs steps') ++ y) : ps = qs := by
  -- both layouts are the same in front of each branch, so the indentation can be cancelled whatever it is
  induction ps generalizing qs l with
  | nil =>
    cases qs with
    | nil => rfl
    | cons q qs =>
      rw [branches, branches, List.map_nil, List.nil_append, List.map_cons, List.cons_append,
        Layout.written_line hl, Layout.written_line hl] at h
      exact absurd (List.append_cancel_left h).symm caseLine_ne
  | cons p ps ih =>
    cases qs with
    | nil =>
      rw [branches, branches, List.map_nil, List.nil_append, List.map_cons, List.cons_append,
        Layout.written_line hl, Layout.written_line hl] at h
      exact absurd (List.append_cancel_left h) caseLine_ne
    | cons q qs =>
      obtain ⟨hp, hps⟩ := List.forall_mem_cons.mp hp
      obtain ⟨hq, hqs⟩ := List.forall_mem_cons.mp hq
      rw [branches, branches, List.map_cons, List.cons_append, List.map_cons, List.cons_append,
        Layout.written_line hl, Layout.written_line hl] at h
      obtain ⟨rfl, hbelow⟩ := caseLine_inj hp hq (List.append_cancel_left h)
      have hothers : ps = qs := ih (l := { l with gap := .unasked }) hl hps hqs (List.cons.inj hbelow).2
      rw [hothers]

end Branches

/-! ## One enumeration -/

section Blocks

variable {c c' : Conversion} {o : Options} {x y : Text}

/-- The steps in front of the branches that make strings. -/
def Conversion.front (c : Conversion) (o : Options) : List Step :=
  .banner Passage.toStringHeader.title :: c.body o .toStringHeader ++
    [.banner Passage.toStringSource.title,
      .line (o.stringType ++ " ".toList ++ qualifier o.scope ++ "to_string(".toList ++ c.name ++ " const obj)".toList),
      .openBlock,
      .line "switch (obj)".toList,
      .openBlock]

/-- The steps behind these branches. -/
def Conversion.back (c : Conversion) (o : Options) : List Step :=
  [.closeBlock [], .closeBlock []] ++ [Passage.parseHeader, Passage.parseSource].flatMap fun p =>
    .banner p.title :: c.body o p

/-- Only the branches that make strings depend on more than the name, up to the line behind them. -/
theorem Conversion.steps_eq (c : Conversion) (o : Options) :
    c.steps o = c.front o ++ c.branches c.cases (c.back o) := by
  simp [steps, Passage.all, front, back, branches, body]

theorem Conversion.front_congr (h : c.name = c'.name) : c.front o = c'.front o := by
  simp only [front, body, h]

theorem Conversion.branches_congr (h : c.name = c'.name) (cases : List (Text × Text)) (behind : List Step) :
    c.branches cases behind = c'.branches cases behind := by
  unfold branches caseLine
  rw [h]

theorem Conversion.isWhole_front : ∀ s ∈ c.front o, s.isWhole = true := by
  intro s hs
  refine isWhole_of_mem_steps (c := c) (o := o) s ?_
  rw [steps_eq]
  exact List.mem_append_left _ hs

/-- The first line below the first banner tells the name. -/
theorem Conversion.name_inj (hc : ' ' ∉ c.name) (hc' : ' ' ∉ c'.name)
    (h : Layout.written {} (c.steps o) ++ x = Layout.written {} (c'.steps o) ++ y) : c.name = c'.name := by
  have hbanner : ∀ s ∈ [Step.banner Passage.toStringHeader.title], s.isWhole = true :=
    List.forall_mem_singleton.mpr rfl
  have hsteps : ∀ c : Conversion, ∃ steps, c.steps o = [.banner Passage.toStringHeader.title] ++
      .line (o.stringType ++ " to_string(".toList ++ c.name ++ " const obj);".toList) :: steps := fun c => ⟨_, rfl⟩
  obtain ⟨steps, heq⟩ := hsteps c
  obtain ⟨steps', heq'⟩ := hsteps c'
  rw [heq, heq', Layout.written_append rfl hbanner, Layout.written_append rfl hbanner] at h
  have hbelow := List.append_cancel_left h
  rw [Layout.written_line rfl, Layout.written_line rfl] at hbelow
  have hline := List.append_cancel_left hbelow
  simp only [List.append_assoc] at hline
  exact (append_inj_of_head hc hc' rfl rfl (List.append_cancel_left (List.append_cancel_left hline))).1

/-- The text of an enumeration tells the name and the branches, whatever follows. -/
theorem Conversion.cases_inj (hc : ' ' ∉ c.name) (hc' : ' ' ∉ c'.name) (hp : ∀ p ∈ c.cases, Delimited p)
    (hq : ∀ q ∈ c'.cases, Delimited q)
    (h : Layout.written {} (c.steps o) ++ x = Layout.written {} (c'.steps o) ++ y) :
    c.name = c'.name ∧ c.cases = c'.cases := by
  have hname := name_inj hc hc' h
  have hline : ((c'.front o).foldl Step.next {}).midLine = false := rfl
  refine ⟨hname, ?_⟩
  rw [steps_eq, steps_eq, front_congr hname, branches_congr hname, Layout.written_append rfl isWhole_front,
    Layout.written_append rfl isWhole_front] at h
  exact branches_inj hline hp hq (List.append_cancel_left h)

end Blocks

/-! ## Whole texts -/

section Texts

variable {o : Options} {e e' : Enumeration} {es fs : List Enumeration} {x y : Text}

/-- Names hold neither colons nor quotation marks. -/
theorem Enumeration.Named.delimited (he : e.Named) : ∀ p ∈ (Conversion.ofEnumeration o e).cases, Delimited p := by
  intro p hp
  obtain ⟨-, hmember, htext⟩ := mem_cases he hp
  exact ⟨notMem_of_memberName hmember (isWord_delimiter (by decide)),
    notMem_of_memberName htext (isWord_delimiter (by decide))⟩

theorem Enumeration.Named.notMem_name (he : e.Named) : ' ' ∉ e.name := fun h =>
  ne_of_isWord (he.1.isWord _ h) (isWord_eq_false_of_isBlank (c := ' ') (by decide)) rfl

/-- The text of an enumeration tells its definition, whatever follows. -/
theorem definition_inj (he : e.Named) (he' : e'.Named) (h : generatedText o [e] ++ x = generatedText o [e'] ++ y) :
    e.definition = e'.definition ∧ x = y := by
  have hsteps : ∀ e : Enumeration,
      generatedText o [e] = Layout.written {} ((Conversion.ofEnumeration o e).steps o) := by
    intro e
    rw [generatedText, List.flatMap_singleton]
    rfl
  have hwritten := h
  rw [hsteps, hsteps] at hwritten
  obtain ⟨hname, hcases⟩ := Conversion.cases_inj he.notMem_name he'.notMem_name he.delimited he'.delimited hwritten
  have hmembers : ∀ e : Enumeration, (Conversion.ofEnumeration o e).cases.map Prod.fst = e.memberNames := by
    intro e
    simp [Conversion.ofEnumeration, Function.comp_def]
  have hdefinition : e.definition = e'.definition := by
    rw [Enumeration.definition, Enumeration.definition, ← hmembers e, hcases, hmembers e']
    exact congrArg (Definition.mk · _) hname
  have htext : generatedText o [e] = generatedText o [e'] := generatedText_congr (by simp [hdefinition])
  rw [htext] at h
  exact ⟨hdefinition, List.append_cancel_left h⟩

/-- **Generated text tells what it is generated from**: enumerations that make the same text define the same enums with
the same members, in the same order. -/
theorem generatedText_injective (he : ∀ e ∈ es, e.Named) (hf : ∀ f ∈ fs, f.Named)
    (h : generatedText o es = generatedText o fs) :
    es.map Enumeration.definition = fs.map Enumeration.definition := by
  induction es generalizing fs with
  | nil =>
    rw [generatedText_eq_nil_iff.mpr rfl] at h
    rw [generatedText_eq_nil_iff.mp h.symm]
  | cons e es ih =>
    obtain ⟨hfirst, hothers⟩ := List.forall_mem_cons.mp he
    cases fs with
    | nil =>
      rw [generatedText_eq_nil_iff.mpr (rfl : ([] : List Enumeration) = []), generatedText_eq_nil_iff] at h
      cases h
    | cons f fs =>
      obtain ⟨hfirst', hothers'⟩ := List.forall_mem_cons.mp hf
      rw [← List.singleton_append, generatedText_append, ← List.singleton_append (l := fs), generatedText_append] at h
      obtain ⟨hdefinition, hrest⟩ := definition_inj hfirst hfirst' h
      have hbelow : generatedText o es = generatedText o fs := by
        by_cases hes : es = []
        · by_cases hfs : fs = []
          · rw [hes, hfs]
          · simp [hes, hfs, generatedText_eq_nil_iff.mpr (rfl : ([] : List Enumeration) = [])] at hrest
        · by_cases hfs : fs = []
          · simp [hes, hfs, generatedText_eq_nil_iff.mpr (rfl : ([] : List Enumeration) = [])] at hrest
          · simpa [hes, hfs] using hrest
      rw [List.map_cons, List.map_cons, hdefinition, ih hothers hothers' hbelow]

end Texts

/-- Two enumerations with a repeated member, at different places, and one without members behind each. -/
theorem generatedText_injective_moved : ∃ es fs : List Enumeration, es ≠ fs ∧
    generatedText { stripPrefix := true } es = generatedText { stripPrefix := true } fs ∧
      es.map Enumeration.definition = fs.map Enumeration.definition := by
  have hname : ∀ {c : Char}, c.isAlpha = true → EnumName [c] := fun h => .mk h (List.forall_mem_nil _)
  have hmember : MemberName ['A'] := ⟨List.cons_ne_nil _ _, List.forall_mem_singleton.mpr (isWord_of_isAlpha rfl)⟩
  have hnamed : ∀ n : Nat, ∀ e ∈ [(⟨['E'], [⟨['A'], n⟩, ⟨['A'], n + 2⟩], ⟨0, n + 3⟩⟩ : Enumeration),
      ⟨['F'], [], ⟨n + 5, n + 11⟩⟩], e.Named := by
    intro n
    refine List.forall_mem_cons.mpr ⟨⟨hname rfl, ?_⟩, List.forall_mem_singleton.mpr ⟨hname rfl, ?_⟩⟩
    · exact List.forall_mem_cons.mpr ⟨hmember, List.forall_mem_singleton.mpr hmember⟩
    · exact List.forall_mem_nil _
  have htext : generatedText { stripPrefix := true }
      [⟨['E'], [⟨['A'], 7⟩, ⟨['A'], 9⟩], ⟨0, 10⟩⟩, ⟨['F'], [], ⟨12, 18⟩⟩] =
        generatedText { stripPrefix := true }
          [⟨['E'], [⟨['A'], 8⟩, ⟨['A'], 10⟩], ⟨0, 11⟩⟩, ⟨['F'], [], ⟨13, 19⟩⟩] := generatedText_congr rfl
  exact ⟨_, _, by decide, htext, generatedText_injective (hnamed 7) (hnamed 8) htext⟩

end EnumStrings
