import EnumStrings.Proofs.Padding
import EnumStrings.Proofs.Shifting
import EnumStrings.Proofs.Surface

/-!
# Nothing but the trimmed lines is read

What is read from a source can be told from the texts of its lines without the white space around them, and of blank
lines it does not matter how many there are together (`condense`).

* The groups are the runs of lines that are not blank (`map_trimmed_groups`), and runs are the same where blank lines
  are left out next to others or at either end (`runs_condense`).
* A group declares what its trimmed lines say (`sketch_ofGroup`), since white space around a line is invisible.
* What a user is told, apart from the places, and what is generated depend on these sketches only
  (`words_ofResult`, `generatedText_congr`).

So two sources with the same trimmed lines are read alike (`ofSource_congr`).
-/

namespace EnumStrings

/-! ## Trimmed lines -/

/-- The texts of the lines without the white space around them. -/
def trimmedLines (src : Text) : List Text := (lines src).map fun l => trim l.text

/-- The lines with one empty line for each run of empty lines. -/
def squeeze : List Text → List Text
  | [] => []
  | l :: ls => if l = [] ∧ ls.head? = some [] then squeeze ls else l :: squeeze ls

/-- The lines from the first on that is not empty. -/
def skipEmpty (ls : List Text) : List Text := ls.dropWhile (· = [])

/-- The lines with one empty line for each run of empty lines, and none at either end. -/
def condense (ls : List Text) : List Text := squeeze (skipEmpty (skipEmpty ls).reverse).reverse

/-- The longest runs of lines that are not empty. -/
def runs (ls : List Text) : List (List Text) := (ls.splitOn []).filter (· ≠ [])

section Runs

variable {ls xs ys : List Text}

theorem runs_append_cons (xs ys : List Text) : runs (xs ++ [] :: ys) = runs xs ++ runs ys := by
  rw [runs, List.splitOn_append_cons_self, List.filter_append, runs, runs]

theorem runs_cons_nil (ls : List Text) : runs ([] :: ls) = runs ls := runs_append_cons [] ls

/-- Lines of which none is empty are one run. -/
theorem runs_eq_singleton (hne : ls ≠ []) (hls : [] ∉ ls) : runs ls = [ls] := by
  rw [runs, List.splitOn_eq_singleton hls]
  simp [hne]

/-- Empty lines make up no run. -/
theorem runs_replicate_append (n : Nat) (ls : List Text) : runs (List.replicate n [] ++ ls) = runs ls := by
  induction n with
  | zero => rfl
  | succ n ih => rw [List.replicate_succ, List.cons_append, runs_cons_nil, ih]

theorem runs_append_replicate (n : Nat) (ls : List Text) : runs (ls ++ List.replicate n []) = runs ls := by
  cases n with
  | zero => rw [List.replicate_zero, List.append_nil]
  | succ n =>
    have hnone := runs_replicate_append n []
    rw [List.append_nil] at hnone
    rw [List.replicate_succ, runs_append_cons, hnone]
    exact List.append_nil _

/-- Empty lines stand in front of what is left of lines behind them. -/
theorem exists_replicate_append_skipEmpty (ls : List Text) : ∃ n, ls = List.replicate n [] ++ skipEmpty ls := by
  refine ⟨(ls.takeWhile (· = [])).length, ?_⟩
  have hempty : ls.takeWhile (· = []) = List.replicate (ls.takeWhile (· = [])).length [] :=
    List.eq_replicate_iff.mpr ⟨rfl, fun l hl => by simpa using List.all_eq_true.mp List.all_takeWhile l hl⟩
  rw [← hempty, skipEmpty, List.takeWhile_append_dropWhile]

/-- The lines up to the first empty one, and the runs behind, are those of the squeezed lines. -/
theorem splitOn_squeeze (ls : List Text) : ∃ first others others',
    ls.splitOn [] = first :: others ∧ (squeeze ls).splitOn [] = first :: others' ∧
      others.filter (· ≠ []) = others'.filter (· ≠ []) := by
  induction ls with
  | nil => exact ⟨[], [], [], rfl, rfl, rfl⟩
  | cons l ls ih =>
    obtain ⟨first, others, others', hls, hsqueeze, hothers⟩ := ih
    rw [squeeze, List.splitOn_cons_eq_if_modifyHead]
    by_cases hl : l = []
    · subst hl
      rw [if_pos (beq_self_eq_true _)]
      split
      · -- the line is left out, and so is the empty run that it starts
        rename_i hnext
        obtain ⟨ls, rfl⟩ := List.head?_eq_some_iff.mp hnext.2
        rw [List.splitOn_cons_eq_if_modifyHead, if_pos (beq_self_eq_true _)] at hls
        obtain ⟨rfl, -⟩ := List.cons.inj hls
        refine ⟨[], [] :: others, others', ?_, hsqueeze, ?_⟩
        · rw [List.splitOn_cons_eq_if_modifyHead, if_pos (beq_self_eq_true _), hls]
        · rw [List.filter_cons, hothers]
          rfl
      · refine ⟨[], first :: others, first :: others', by rw [hls], ?_, ?_⟩
        · rw [List.splitOn_cons_eq_if_modifyHead, if_pos (beq_self_eq_true _), hsqueeze]
        · rw [List.filter_cons, List.filter_cons, hothers]
    · have hne : ¬ (l == []) = true := by simpa using hl
      rw [if_neg hne, if_neg fun h => hl h.1]
      refine ⟨l :: first, others, others', by rw [hls]; rfl, ?_, hothers⟩
      rw [List.splitOn_cons_eq_if_modifyHead, if_neg hne, hsqueeze]
      rfl

theorem runs_squeeze (ls : List Text) : runs (squeeze ls) = runs ls := by
  obtain ⟨first, others, others', hls, hsqueeze, hothers⟩ := splitOn_squeeze ls
  rw [runs, runs, hls, hsqueeze, List.filter_cons, List.filter_cons, hothers]

/-- Condensed lines have the same runs. -/
theorem runs_condense (ls : List Text) : runs (condense ls) = runs ls := by
  obtain ⟨n, hfront⟩ := exists_replicate_append_skipEmpty ls
  obtain ⟨m, hback⟩ := exists_replicate_append_skipEmpty (skipEmpty ls).reverse
  have hback := congrArg List.reverse hback
  rw [List.reverse_reverse, List.reverse_append, List.reverse_replicate] at hback
  rw [condense, runs_squeeze, ← runs_append_replicate m, ← hback]
  conv => rhs; rw [hfront, runs_replicate_append]

end Runs

/-! ## Groups -/

section Groups

variable {ls : List Excerpt} {src : Text}

/-- The texts of the lines of a group without the white space around them. -/
def Group.trimmed (g : Group) : List Text := g.lines.map fun l => trim l.text

theorem Excerpt.isBlank_iff {l : Excerpt} : l.isBlank = true ↔ trim l.text = [] := by
  rw [isBlank, List.all_eq_true, trim_eq_nil_iff]
  rfl

/-- The groups are the runs of lines that are not blank. -/
theorem Group.map_trimmed_ofLines (ls : List Excerpt) :
    (ofLines ls).map trimmed = runs (ls.map fun l => trim l.text) := by
  fun_induction ofLines ls with
  | case1 => rfl
  | case2 l ls h ih => rw [List.map_cons, Excerpt.isBlank_iff.mp h, runs_cons_nil, ih]
  | case3 l ls h ih =>
    have hrun : runs ((l :: ls.takeWhile (!·.isBlank)).map fun l => trim l.text) =
        [(l :: ls.takeWhile (!·.isBlank)).map fun l => trim l.text] := by
      refine runs_eq_singleton (by simp) fun hmem => ?_
      obtain ⟨x, hx, htrim⟩ := List.mem_map.mp hmem
      rcases List.mem_cons.mp hx with rfl | hx
      · exact h (Excerpt.isBlank_iff.mpr htrim)
      · have hnot := List.all_eq_true.mp List.all_takeWhile x hx
        rw [Excerpt.isBlank_iff.mpr htrim] at hnot
        cases hnot
    have hsplit : (l :: ls).map (fun l => trim l.text) =
        (l :: ls.takeWhile (!·.isBlank)).map (fun l => trim l.text) ++
          (ls.dropWhile (!·.isBlank)).map fun l => trim l.text := by
      rw [← List.map_append, List.cons_append, List.takeWhile_append_dropWhile]
    rw [List.map_cons, ih, hsplit]
    cases hrest : ls.dropWhile (!·.isBlank) with
    | nil =>
      rw [List.map_nil, List.append_nil, hrun]
      rfl
    | cons b rest =>
      have hb : trim b.text = [] := by
        have hnot := List.head?_dropWhile_not (!·.isBlank) ls
        rw [hrest] at hnot
        exact Excerpt.isBlank_iff.mp (by simpa using hnot)
      rw [List.map_cons, hb, runs_append_cons, runs_cons_nil, hrun]
      rfl

theorem map_trimmed_groups (src : Text) : (groups src).map Group.trimmed = runs (trimmedLines src) :=
  Group.map_trimmed_ofLines (lines src)

/-- The lines of a source hold no line feed, and so do not those of its groups. -/
theorem notMem_newline {g : Group} {l : Excerpt} (hg : g ∈ groups src) (hl : l ∈ g.lines) : '\n' ∉ l.text := by
  obtain ⟨ls, hls⟩ := exists_lined src
  have hmem : l ∈ lines src := by
    have hall := Group.flatMap_lines_ofLines (lines src)
    exact (List.mem_filter.mp (hall ▸ List.mem_flatMap.mpr ⟨g, hg, hl⟩)).1
  have htext : l.text ∈ ls := hls.map_text_lines ▸ List.mem_map_of_mem hmem
  intro hbreak
  exact absurd (hls.inLine _ htext '\n' hbreak) (by decide)

end Groups

/-! ## What a group declares -/

section Sketches

variable {g : Group} {r r' : Except GroupError Enumeration} {o : Options}

/-- What is read from a group, apart from places: the definition, or the text at fault. -/
def sketch : Except GroupError Enumeration → Except Text Definition
  | .ok e => .ok e.definition
  | .error fault => .error fault.text

/-- What lines without white space around them declare. -/
def sketchOf : List Text → Except Text Definition
  | [] => .error []
  | first :: others =>
    match Declaration.ofLine? first with
    | some d => .ok ⟨d.name, (d.pieces ++ others).filterMap memberName?⟩
    | none => .error first

/-- A group declares what its trimmed lines say. -/
theorem sketch_ofGroup (hg : ∀ l ∈ g.lines, '\n' ∉ l.text) : sketch (Enumeration.ofGroup g) = sketchOf g.trimmed := by
  obtain ⟨hfirst, hothers⟩ := List.forall_mem_cons.mp hg
  have hbody : (g.body.map fun l => trim l.text).filterMap memberName? =
      (g.body.map (·.text)).filterMap memberName? := by
    rw [List.filterMap_map, List.filterMap_map]
    exact List.filterMap_congr fun l hl => memberName?_alike (padded_trim (hothers l hl))
  have hdeclaration := ofLine?_alike (padded_trim hfirst)
  rw [Group.trimmed, Group.lines, List.map_cons, sketchOf]
  cases hline : Declaration.ofLine? g.declaration.text with
  | none =>
    rw [hline] at hdeclaration
    have hnone := eq_none_of_rel hdeclaration
    simp only [Enumeration.ofGroup, hline, hnone, sketch, GroupError.text]
  | some d =>
    rw [hline] at hdeclaration
    obtain ⟨d', hsome, hname', hpieces⟩ := exists_of_rel hdeclaration
    obtain ⟨e, hok, hname, -, hmembers⟩ := Enumeration.ofGroup_eq_ok hline
    simp only [hok, sketch, Enumeration.definition, hname, hmembers, hsome, hname', List.filterMap_append, hpieces,
      hbody]

/-- The results of a source are what the runs of its trimmed lines declare. -/
theorem map_sketch_results (src : Text) :
    (Listing.ofSource src).results.map sketch = (runs (trimmedLines src)).map sketchOf := by
  rw [← map_trimmed_groups, Listing.ofSource, List.map_map, List.map_map]
  exact List.map_congr_left fun g hg => sketch_ofGroup fun l hl => notMem_newline hg hl

theorem map_definition_enumerations (src : Text) :
    (Listing.ofSource src).enumerations.map Enumeration.definition =
      ((Listing.ofSource src).results.map sketch).filterMap Except.toOption := by
  have hdefinition : (fun r => (Except.toOption r).map Enumeration.definition) = Except.toOption ∘ sketch := by
    funext r
    cases r <;> rfl
  rw [Listing.enumerations, List.map_filterMap, List.filterMap_map, hdefinition]

/-- A report without places. -/
def Report.words (r : Report) : Severity × String × List (String × Color) :=
  (r.severity, r.message, r.labels.map fun l => (l.message, l.color))

/-- The definition as an enumeration, with all places at the start of a source. -/
def Definition.enumeration (d : Definition) : Enumeration := ⟨d.name, d.members.map (⟨·, 0⟩), ⟨0, 0⟩⟩

/-- What there is to say about an enumeration, apart from places, is said of its definition. -/
theorem words_ofEnumeration (e : Enumeration) :
    (Diagnostic.ofEnumeration e).map (·.report.words) =
      (Diagnostic.ofEnumeration e.definition.enumeration).map (·.report.words) := by
  have hmembers : e.definition.enumeration.members = e.members.map fun m => ⟨m.text, 0⟩ := List.map_map
  have hrepeats := Diagnostic.repeats_map (f := fun m => ⟨m.text, 0⟩) (fun _ => rfl) [] e.members
  rw [List.map_nil] at hrepeats
  rw [Diagnostic.ofEnumeration, Diagnostic.ofEnumeration, hmembers, hrepeats, List.map_append, List.map_append,
    List.map_map, List.map_map, List.map_map]
  congr 1
  cases e.members with
  | nil => rfl
  | cons m ms => rfl

/-- What a user is told about a group, apart from places, depends on what it declares. -/
theorem words_ofResult (h : sketch r = sketch r') :
    (Diagnostic.ofResult r).map (·.report.words) = (Diagnostic.ofResult r').map (·.report.words) := by
  cases r with
  | error fault =>
    cases r' with
    | ok e' => cases h
    | error fault' =>
      have htext : fault.text = fault'.text := Except.error.inj h
      have hmessage : fault.message = fault'.message := by
        unfold GroupError.message
        rw [htext]
      have hwords : (Diagnostic.skipped fault).report.words =
          (.error, fault.message, (Diagnostic.skipped fault').report.words.2.2) := rfl
      rw [Diagnostic.ofResult, Diagnostic.ofResult, List.map_singleton, List.map_singleton, hwords, hmessage]
      rfl
  | ok e =>
    cases r' with
    | error fault' => cases h
    | ok e' =>
      have hdefinition : e.definition = e'.definition := Except.ok.inj h
      rw [Diagnostic.ofResult, Diagnostic.ofResult, words_ofEnumeration e, words_ofEnumeration e', hdefinition]

/-- Lists are told apart by nothing but what tells their elements apart. -/
theorem flatMap_eq_of_map_eq {α β γ : Type} {f : α → β} {g : α → List γ} (hfg : ∀ x y, f x = f y → g x = g y)
    {xs ys : List α} (h : xs.map f = ys.map f) : xs.flatMap g = ys.flatMap g := by
  induction xs generalizing ys with
  | nil =>
    obtain rfl := List.map_eq_nil_iff.mp h.symm
    rfl
  | cons x xs ih =>
    obtain ⟨y, ys, rfl, hfirst, hothers⟩ := List.map_eq_cons_iff.mp h.symm
    rw [List.flatMap_cons, List.flatMap_cons, hfg x y hfirst.symm, ih hothers.symm]

/-- Definitions are generated from, but no places. -/
theorem generatedText_congr {es fs : List Enumeration}
    (h : es.map Enumeration.definition = fs.map Enumeration.definition) : generatedText o es = generatedText o fs := by
  refine congrArg render (flatMap_eq_of_map_eq (fun e e' he => ?_) h)
  obtain ⟨hname, hmembers⟩ := Definition.mk.inj he
  rw [Conversion.ofEnumeration_congr o hname hmembers]

end Sketches

/-! ## Two sources -/

/-- **Nothing but the trimmed lines is read**: sources with the same ones, apart from repeated blank lines, give the
same enums, reports and text. -/
theorem ofSource_congr {a b : Text} (h : condense (trimmedLines a) = condense (trimmedLines b)) (o : Options)
    (f : Findings) :
    (Listing.ofSource a).enumerations.map Enumeration.definition =
        (Listing.ofSource b).enumerations.map Enumeration.definition ∧
      (∃ added added', ((Listing.ofSource a).findings f).reports = f.reports ++ added ∧
        ((Listing.ofSource b).findings f).reports = f.reports ++ added' ∧
          added.map Report.words = added'.map Report.words) ∧
      generatedText o (Listing.ofSource a).enumerations = generatedText o (Listing.ofSource b).enumerations := by
  have hruns : runs (trimmedLines a) = runs (trimmedLines b) := by
    rw [← runs_condense, h, runs_condense]
  have hsketches : (Listing.ofSource a).results.map sketch = (Listing.ofSource b).results.map sketch := by
    rw [map_sketch_results, map_sketch_results, hruns]
  have hdefinitions : (Listing.ofSource a).enumerations.map Enumeration.definition =
      (Listing.ofSource b).enumerations.map Enumeration.definition := by
    rw [map_definition_enumerations, map_definition_enumerations, hsketches]
  refine ⟨hdefinitions, ⟨_, _, Listing.reports_findings _ f, Listing.reports_findings _ f, ?_⟩,
    generatedText_congr hdefinitions⟩
  rw [List.map_map, List.map_map, Listing.diagnostics, Listing.diagnostics, List.map_flatMap, List.map_flatMap]
  exact flatMap_eq_of_map_eq (fun r r' hr => words_ofResult hr) hsketches

/-- The terminators of a source are not among its trimmed lines. -/
theorem trimmedLines_of_lined {ls : List Text} {src : Text} (h : Lined ls src) : trimmedLines src = ls.map trim := by
  rw [← h.map_text_lines, List.map_map]
  rfl

/-- Two enums with white space around their lines, three terminators and two blank lines in between, and without: the
places differ, and nothing else. -/
theorem ofSource_congr_terminators :
    condense (trimmedLines "\tenum E\r\n A,\r\r\n \n\nenum F \u00a0".toList) =
        condense (trimmedLines "\nenum E\nA,\n\nenum F\n".toList) ∧
      (Listing.ofSource "\tenum E\r\n A,\r\r\n \n\nenum F \u00a0".toList).enumerations.map Enumeration.definition =
        [⟨['E'], [['A']]⟩, ⟨['F'], []⟩] ∧
      (Listing.ofSource "\nenum E\nA,\n\nenum F\n".toList).enumerations =
        [⟨['E'], [⟨['A'], 8⟩], ⟨1, 10⟩⟩, ⟨['F'], [], ⟨12, 18⟩⟩] ∧
      ((Listing.ofSource "\tenum E\r\n A,\r\r\n \n\nenum F \u00a0".toList).findings .empty).reports.map Report.words =
        [(.warning, "enum `F` has no members",
          [("only the fallback branches will be generated for this enum", .yellow)])] ∧
      generatedText {} (Listing.ofSource "\tenum E\r\n A,\r\r\n \n\nenum F \u00a0".toList).enumerations =
        generatedText {} (Listing.ofSource "\nenum E\nA,\n\nenum F\n".toList).enumerations := by
  have ha : Lined ["\tenum E".toList, " A,".toList, [], " ".toList, [], "enum F \u00a0".toList]
      "\tenum E\r\n A,\r\r\n \n\nenum F \u00a0".toList :=
    .cons (by decide) .both (by decide) <| .cons (by decide) .carriageReturn (by decide) <|
      .cons (by decide) .both (by decide) <| .cons (by decide) .lineFeed (by decide) <|
        .cons (by decide) .lineFeed (by decide) <| .last (by decide) (by decide)
  have hb : Lined [[], "enum E".toList, "A,".toList, [], "enum F".toList] "\nenum E\nA,\n\nenum F\n".toList :=
    .cons (by decide) .lineFeed (by decide) <| .cons (by decide) .lineFeed (by decide) <|
      .cons (by decide) .lineFeed (by decide) <| .cons (by decide) .lineFeed (by decide) <|
        .cons (by decide) .lineFeed (by decide) .nil
  have hlines : condense (trimmedLines "\tenum E\r\n A,\r\r\n \n\nenum F \u00a0".toList) =
      condense (trimmedLines "\nenum E\nA,\n\nenum F\n".toList) := by
    rw [trimmedLines_of_lined ha, trimmedLines_of_lined hb]
    decide
  obtain ⟨hdefinitions, ⟨added, added', hreports, hreports', hwords⟩, htext⟩ := ofSource_congr hlines {} .empty
  have hplaces : (Listing.ofSource "\nenum E\nA,\n\nenum F\n".toList).enumerations =
        [⟨['E'], [⟨['A'], 8⟩], ⟨1, 10⟩⟩, ⟨['F'], [], ⟨12, 18⟩⟩] ∧
      ((Listing.ofSource "\nenum E\nA,\n\nenum F\n".toList).findings .empty).reports.map Report.words =
        [(.warning, "enum `F` has no members",
          [("only the fallback branches will be generated for this enum", .yellow)])] := by decide +kernel
  refine ⟨hlines, ?_, hplaces.1, ?_, htext⟩
  · rw [hdefinitions, hplaces.1]
    rfl
  · rw [hreports, ← hplaces.2, hreports', List.map_append, List.map_append, hwords]

end EnumStrings
