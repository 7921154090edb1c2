import EnumStrings.Proofs.Scanning
import EnumStrings.Proofs.Sections
import EnumStrings.Proofs.Shifting

/-!
# Sources are read part by part

Two line feeds between two texts end the last line of the first, whatever it ends with, and add a blank line
(`lines_append`). So no group reaches across them: the groups of both texts are those of the first and then those of
the second, moved behind it (`groups_append`), and so is all that is read from them. The generated text of the second
follows that of the first, with an empty line between them (`generatedText_append`).
-/

namespace EnumStrings

/-! ## Lines and groups -/

section Lines

variable {a l : Text}

theorem terminatedLines_newline (b : Text) : terminatedLines ('\n' :: b) = ([], ['\n']) :: terminatedLines b :=
  terminatedLines_append (l := []) (by simp [InLine]) .lineFeed (by simp)

/-- Two line feeds end a line and add a blank one, also where the first of them belongs to a longer terminator. -/
theorem terminatedLines_seam {e : Text} (hl : InLine l) (he : e = ['\n'] ∨ e = ['\r', '\n']) (b : Text) :
    terminatedLines (l ++ (e ++ '\n' :: b)) = (l, e) :: ([], ['\n']) :: terminatedLines b := by
  rcases he with rfl | rfl
  · rw [terminatedLines_append hl .lineFeed (by simp), terminatedLines_newline]
  · rw [terminatedLines_append hl .both (by simp), terminatedLines_newline]

/-- Where a source ends, two line feeds start nothing but blank lines. -/
theorem place_seam {ls : List Text} (ha : Lined ls a) (start : Nat) (b : Text) :
    ∃ blanks : List Excerpt, blanks ≠ [] ∧ (∀ x ∈ blanks, x.isBlank = true) ∧
      Excerpt.place start (terminatedLines (a ++ '\n' :: '\n' :: b)) =
        Excerpt.place start (terminatedLines a) ++
          (blanks ++ Excerpt.place (start + (byteLength a + 2)) (terminatedLines b)) := by
  induction ha generalizing start with
  | nil =>
    refine ⟨[⟨[], start⟩, ⟨[], start + 1⟩], by simp, by simp [Excerpt.isBlank], ?_⟩
    rw [List.nil_append, terminatedLines_newline, terminatedLines_newline, terminatedLines]
    rfl
  | @last l hne hl =>
    refine ⟨[⟨[], start + byteLength l + 1⟩], by simp, by simp [Excerpt.isBlank], ?_⟩
    have hseam := terminatedLines_seam hl (Or.inl rfl) b
    rw [List.singleton_append] at hseam
    rw [hseam, terminatedLines_eq_singleton hne hl]
    rfl
  | @cons l e ls s hl he hs ha ih =>
    by_cases hend : e = ['\r'] ∧ s = []
    · -- the carriage return and the first line feed end the line together
      obtain ⟨rfl, rfl⟩ := hend
      refine ⟨[⟨[], start + byteLength l + 2⟩], by simp, by simp [Excerpt.isBlank], ?_⟩
      have hline := terminatedLines_append hl .carriageReturn hs
      have hsource : l ++ (['\r'] ++ []) ++ '\n' :: '\n' :: b = l ++ (['\r', '\n'] ++ '\n' :: b) := by simp
      have hlength : start + (byteLength (l ++ (['\r'] ++ [])) + 2) = start + byteLength l + 2 + 1 := by
        rw [byteLength_append, show byteLength (['\r'] ++ []) = 1 from rfl]
        omega
      rw [hsource, terminatedLines_seam hl (Or.inr rfl), hline, terminatedLines, hlength]
      rfl
    · have hnot : e = ['\r'] → (s ++ '\n' :: '\n' :: b).head? ≠ some '\n' := by
        intro hreturn
        cases s with
        | nil => exact absurd ⟨hreturn, rfl⟩ hend
        | cons c s => exact hs hreturn
      obtain ⟨blanks, hne, hblank, hplace⟩ := ih (start + byteLength l + byteLength e)
      refine ⟨blanks, hne, hblank, ?_⟩
      have hlength : start + (byteLength (l ++ (e ++ s)) + 2) =
          start + byteLength l + byteLength e + (byteLength s + 2) := by
        simp only [byteLength_append]
        omega
      rw [List.append_assoc, List.append_assoc, terminatedLines_append hl he hnot, terminatedLines_append hl he hs,
        hlength, Excerpt.place, Excerpt.place, hplace, List.cons_append]

/-- The lines of two texts with two line feeds between them. -/
theorem lines_append (a b : Text) :
    ∃ blanks : List Excerpt, blanks ≠ [] ∧ (∀ x ∈ blanks, x.isBlank = true) ∧
      lines (a ++ '\n' :: '\n' :: b) = lines a ++ (blanks ++ (lines b).map (·.shift (byteLength a + 2))) := by
  obtain ⟨ls, ha⟩ := exists_lined a
  obtain ⟨blanks, hne, hblank, hplace⟩ := place_seam ha 0 b
  exact ⟨blanks, hne, hblank, by rw [lines, hplace, Excerpt.place_shift]; rfl⟩

theorem Group.ofLines_append_blanks {blanks : List Excerpt} (hne : blanks ≠ []) (hb : ∀ x ∈ blanks, x.isBlank = true)
    (xs ys : List Excerpt) : ofLines (xs ++ (blanks ++ ys)) = ofLines xs ++ ofLines ys := by
  obtain ⟨x, blanks, rfl⟩ := List.exists_cons_of_ne_nil hne
  obtain ⟨hx, hothers⟩ := List.forall_mem_cons.mp hb
  have hskip : ofLines (blanks ++ ys) = ofLines ys := by
    clear hne hb
    induction blanks with
    | nil => rfl
    | cons y blanks ih =>
      obtain ⟨hy, hothers⟩ := List.forall_mem_cons.mp hothers
      rw [List.cons_append, ofLines_cons_blank hy, ih hothers]
  rw [List.cons_append, ofLines_append_cons hx, hskip]

/-- No group reaches across two line feeds. -/
theorem groups_append (a b : Text) :
    groups (a ++ '\n' :: '\n' :: b) = groups a ++ (groups b).map (·.shift (byteLength a + 2)) := by
  obtain ⟨blanks, hne, hblank, hlines⟩ := lines_append a b
  rw [groups, hlines, Group.ofLines_append_blanks hne hblank, Group.ofLines_shift]
  rfl

end Lines

/-! ## What is read -/

namespace Listing

theorem results_append (a b : Text) :
    (ofSource (a ++ '\n' :: '\n' :: b)).results =
      (ofSource a).results ++ (ofSource b).results.map (shiftResult (byteLength a + 2)) := by
  have hshift : Enumeration.ofGroup ∘ (·.shift (byteLength a + 2)) =
      shiftResult (byteLength a + 2) ∘ Enumeration.ofGroup := funext Enumeration.ofGroup_shift
  show (groups _).map Enumeration.ofGroup = _
  rw [groups_append, List.map_append, List.map_map, hshift, ← List.map_map]
  rfl

theorem enumerations_append (a b : Text) :
    (ofSource (a ++ '\n' :: '\n' :: b)).enumerations =
      (ofSource a).enumerations ++ (ofSource b).enumerations.map (·.shift (byteLength a + 2)) := by
  have hshift : Except.toOption ∘ shiftResult (byteLength a + 2) =
      fun r => r.toOption.map (·.shift (byteLength a + 2)) := by
    funext r
    cases r <;> rfl
  rw [enumerations, results_append, List.filterMap_append, List.filterMap_map, hshift, ← List.map_filterMap]
  rfl

theorem diagnostics_append (a b : Text) :
    (ofSource (a ++ '\n' :: '\n' :: b)).diagnostics =
      (ofSource a).diagnostics ++ (ofSource b).diagnostics.map (·.shift (byteLength a + 2)) := by
  rw [diagnostics, results_append, List.flatMap_append, List.flatMap_map]
  simp only [Diagnostic.ofResult_shift]
  rw [← List.map_flatMap]
  rfl

theorem reports_append (a b : Text) :
    (ofSource (a ++ '\n' :: '\n' :: b)).diagnostics.map Diagnostic.report =
      (ofSource a).diagnostics.map Diagnostic.report ++
        ((ofSource b).diagnostics.map Diagnostic.report).map (·.shift (byteLength a + 2)) := by
  rw [diagnostics_append, List.map_append, List.map_map, List.map_map]
  simp only [Function.comp_def, Diagnostic.report_shift]

theorem told_append (a b : Text) :
    (ofSource (a ++ '\n' :: '\n' :: b)).events.map Event.told =
      (ofSource a).events.map Event.told ++ (ofSource b).events.map Event.told := by
  rw [events, results_append, List.map_append, List.map_append, List.map_map, List.map_map, List.map_map]
  simp only [Function.comp_def, Event.told_shift]
  simp [events, Function.comp_def]

end Listing

/-! ## What is generated -/

namespace Conversion

variable {c : Conversion} {o : Options} {l : Layout}

/-- Behind a passage all blocks are closed, and no empty line is wanted. -/
theorem foldl_next_body (p : Passage) : (c.body o p).foldl Step.next l = { l with gap := .unasked } := by
  cases p with
  | toStringHeader => rfl
  | toStringSource =>
    rw [body, List.foldl_append, List.foldl_append, Layout.foldl_next_line]
    rfl
  | parseHeader => rfl
  | parseSource =>
    rw [body, List.foldl_append, List.foldl_append, Layout.foldl_next_line]
    split
    · rfl
    · rfl

theorem foldl_next_steps : (c.steps o).foldl Step.next l = { l with gap := .unasked } := by
  simp only [steps, Passage.all, List.flatMap_cons, List.flatMap_nil, List.append_nil, List.foldl_append,
    List.foldl_cons, foldl_next_body]
  rfl

end Conversion

section Texts

variable {o : Options} {es fs : List Enumeration} {e : Enumeration}

/-- The steps of some enumerations, one after the other. -/
def stepsOf (o : Options) (es : List Enumeration) : List Step :=
  es.flatMap fun e => (Conversion.ofEnumeration o e).steps o

theorem isWhole_stepsOf : ∀ s ∈ stepsOf o es, s.isWhole = true := by
  intro s hs
  obtain ⟨e, -, he⟩ := List.mem_flatMap.mp hs
  exact Conversion.isWhole_of_mem_steps s he

theorem foldl_next_stepsOf (l : Layout) :
    (stepsOf o es).foldl Step.next l = { l with gap := if es = [] then l.gap else .unasked } := by
  induction es generalizing l with
  | nil => rfl
  | cons e es ih =>
    rw [stepsOf, List.flatMap_cons, List.foldl_append, Conversion.foldl_next_steps, ← stepsOf, ih,
      if_neg (List.cons_ne_nil e es)]
    split
    · rfl
    · rfl

/-- The text of an enumeration starts with a banner. -/
theorem stepsOf_cons (o : Options) (e : Enumeration) (es : List Enumeration) :
    ∃ title steps, stepsOf o (e :: es) = .banner title :: steps := ⟨_, _, rfl⟩

theorem generatedText_eq_nil_iff : generatedText o es = [] ↔ es = [] := by
  cases es with
  | nil => exact ⟨fun _ => rfl, fun _ => rfl⟩
  | cons e es =>
    obtain ⟨title, steps, hsteps⟩ := stepsOf_cons o e es
    refine ⟨fun h => ?_, fun h => absurd h (List.cons_ne_nil e es)⟩
    rw [generatedText, ← stepsOf, hsteps] at h
    exact absurd h (Layout.run_banner_ne_nil title steps)

/-- The text of the enumerations behind others follows the text of these, with an empty line between the two. -/
theorem generatedText_append (o : Options) (es fs : List Enumeration) :
    generatedText o (es ++ fs) =
      generatedText o es ++ ((if es ≠ [] ∧ fs ≠ [] then ['\n'] else []) ++ generatedText o fs) := by
  cases es with
  | nil => rfl
  | cons e es =>
    cases fs with
    | nil => simp [generatedText, render, Layout.run]
    | cons f fs =>
      obtain ⟨title, steps, hsteps⟩ := stepsOf_cons o f fs
      have hend : (Layout.run {} ((stepsOf o (e :: es)).flatMap Step.instructions)).2 = { gap := .unasked } := by
        rw [Layout.run_flatMap rfl isWhole_stepsOf, foldl_next_stepsOf, if_neg (List.cons_ne_nil e es)]
      have hsplit : stepsOf o (e :: es ++ f :: fs) = stepsOf o (e :: es) ++ stepsOf o (f :: fs) := List.flatMap_append
      rw [if_pos ⟨List.cons_ne_nil e es, List.cons_ne_nil f fs⟩]
      show render (stepsOf o (e :: es ++ f :: fs)) =
        render (stepsOf o (e :: es)) ++ (['\n'] ++ render (stepsOf o (f :: fs)))
      rw [hsplit, render, List.flatMap_append, Layout.run_append, hend, hsteps, Layout.run_banner]
      rfl

end Texts

/-! ## Two sources -/

/-- **A source is read part by part**: two texts with two line feeds between them are read as the first, and then as the
second, moved. -/
theorem ofSource_append (o : Options) (a b : Text) :
    (Listing.ofSource (a ++ "\n\n".toList ++ b)).enumerations =
        (Listing.ofSource a).enumerations ++
          (Listing.ofSource b).enumerations.map (·.shift (byteLength a + 2)) ∧
      (Listing.ofSource (a ++ "\n\n".toList ++ b)).diagnostics.map Diagnostic.report =
        (Listing.ofSource a).diagnostics.map Diagnostic.report ++
          ((Listing.ofSource b).diagnostics.map Diagnostic.report).map (·.shift (byteLength a + 2)) ∧
      (Listing.ofSource (a ++ "\n\n".toList ++ b)).events.map Event.told =
        (Listing.ofSource a).events.map Event.told ++ (Listing.ofSource b).events.map Event.told ∧
      generatedText o (Listing.ofSource (a ++ "\n\n".toList ++ b)).enumerations =
        generatedText o (Listing.ofSource a).enumerations ++
          ((if generatedText o (Listing.ofSource a).enumerations ≠ [] ∧
              generatedText o (Listing.ofSource b).enumerations ≠ [] then ['\n'] else []) ++
            generatedText o (Listing.ofSource b).enumerations) ∧
      ∀ m, (Listing.ofSource m).enumerations = [] →
        generatedText o (Listing.ofSource (a ++ "\n\n".toList ++ m ++ "\n\n".toList ++ b)).enumerations =
          generatedText o (Listing.ofSource (a ++ "\n\n".toList ++ b)).enumerations := by
  have hseam : ∀ a b : Text, a ++ "\n\n".toList ++ b = a ++ '\n' :: '\n' :: b := fun a b => List.append_assoc a _ b
  have htext : ∀ a b : Text, generatedText o (Listing.ofSource (a ++ "\n\n".toList ++ b)).enumerations =
      generatedText o ((Listing.ofSource a).enumerations ++ (Listing.ofSource b).enumerations) := by
    intro a b
    rw [hseam, Listing.enumerations_append, generatedText_append, generatedText_shift, generatedText_append]
    simp only [ne_eq, List.map_eq_nil_iff]
  refine ⟨?_, ?_, ?_, ?_, ?_⟩
  · rw [hseam, Listing.enumerations_append]
  · rw [hseam, Listing.reports_append]
  · rw [hseam, Listing.told_append]
  · rw [htext, generatedText_append]
    simp only [ne_eq, generatedText_eq_nil_iff]
  · intro m hm
    rw [htext, htext, hseam, Listing.enumerations_append, hm, List.map_nil, List.append_nil]

/-- An enum, and behind a lone carriage return a group that is no enumeration and another enum, which are moved. -/
theorem ofSource_append_malformed :
    (Listing.ofSource ("enum E\nA\r".toList ++ "\n\n".toList ++ "enum\n\nenum F".toList)).enumerations =
        [⟨['E'], [⟨['A'], 7⟩], ⟨0, 8⟩⟩, ⟨['F'], [], ⟨17, 23⟩⟩] ∧
      (Listing.ofSource ("enum E\nA\r".toList ++ "\n\n".toList ++ "enum\n\nenum F".toList)).diagnostics.map
          Diagnostic.report =
        [⟨.error, "expected an enum declaration, found `enum`", ⟨11, 15⟩,
            [⟨⟨11, 15⟩, "this line should declare an enum, so this group was skipped", .red⟩]⟩,
          ⟨.warning, "enum `F` has no members", ⟨17, 23⟩,
            [⟨⟨17, 23⟩, "only the fallback branches will be generated for this enum", .yellow⟩]⟩] ∧
      (Listing.ofSource ("enum E\nA\r".toList ++ "\n\n".toList ++ "enum\n\nenum F".toList)).events.map Event.told =
        [(.debug, [("message", .text "parsed enum"), ("name", .text "E"), ("secondary", .text "e"),
            ("members", .names [['A']])]),
          (.debug, [("message", .text "skipping group"),
            ("error", .text "expected an enum declaration, found `enum`")]),
          (.debug, [("message", .text "parsed enum"), ("name", .text "F"), ("secondary", .text "f"),
            ("members", .names [])])] ∧
      generatedText {} (Listing.ofSource
          ("enum E\nA\r".toList ++ "\n\n".toList ++ "enum".toList ++ "\n\n".toList ++ "enum F".toList)).enumerations =
        generatedText {} (Listing.ofSource
          ("enum E\nA\r".toList ++ "\n\n".toList ++ "enum F".toList)).enumerations := by
  obtain ⟨henumerations, hreports, hevents, -, -⟩ :=
    ofSource_append {} "enum E\nA\r".toList "enum\n\nenum F".toList
  obtain ⟨-, -, -, -, hbetween⟩ := ofSource_append {} "enum E\nA\r".toList "enum F".toList
  -- what the theorem leaves to be read are the two parts, each by itself
  rw [henumerations, hreports, hevents, ← and_assoc, ← and_assoc]
  exact ⟨by decide +kernel, hbetween _ (by decide +kernel)⟩

end EnumStrings
