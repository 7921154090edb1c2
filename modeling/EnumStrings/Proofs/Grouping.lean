import Mathlib.Data.List.Basic
import EnumStrings.Proofs.Cuts
import EnumStrings.Proofs.Places
import EnumStrings.Proofs.Scanning
import EnumStrings.Proofs.Shifting

/-!
# Groups are the longest runs of lines that are not blank

A group stands among the lines of its source in one piece, and a blank line or none follows it (`Group.exists_run`). No
line stands in a source twice, so of a line in a group it is known what comes behind it: the rest of the group, and then
a blank line or none (`Group.exists_behind`). Hence two lines are in one group exactly if no blank line parts them
(`Group.same_iff`).

What a group spans holds its lines and no others. Cut out of the source it is read as the group alone, moved to the
front (`exists_group_of_cut`), since lines stay what they are if those around them are taken away
(`terminatedLines_run`).
-/

namespace EnumStrings

/-! ## Lines of which some are taken away -/

section Lines

variable {s l e : Text} {before run parts after : List (Text × Text)} {n : Nat} {xs ys : List Excerpt}

theorem inLine_of_mem_terminatedLines (h : (l, e) ∈ terminatedLines s) : InLine l := by
  obtain ⟨ls, hs⟩ := exists_lined s
  apply hs.inLine
  rw [← hs.map_fst]
  exact List.mem_map_of_mem h

/-- Behind some lines of a source the others are read as if they stood alone. -/
theorem exists_terminatedLines_eq (h : terminatedLines s = before ++ parts) : ∃ r, terminatedLines r = parts := by
  induction before generalizing s with
  | nil => exact ⟨s, h⟩
  | cons p before ih =>
    have hne : s ≠ [] := by
      rintro rfl
      rw [terminatedLines] at h
      cases h
    rw [terminatedLines_of_ne_nil hne] at h
    exact ih (List.cons.inj h).2

/-- Up to a line that is not empty, the lines are read as before if all behind them is taken away. -/
theorem terminatedLines_run (hne : l ≠ []) (h : terminatedLines s = run ++ (l, e) :: after) :
    terminatedLines (run.flatMap (fun p => p.1 ++ p.2) ++ l) = run ++ [(l, [])] := by
  induction run generalizing s with
  | nil =>
    have hmem : (l, e) ∈ terminatedLines s := by simp [h]
    exact terminatedLines_eq_singleton hne (inLine_of_mem_terminatedLines hmem)
  | cons p run ih =>
    obtain ⟨ls, hs⟩ := exists_lined s
    cases hs with
    | nil =>
      rw [terminatedLines] at h
      cases h
    | last hne' hl' =>
      rw [terminatedLines_eq_singleton hne' hl'] at h
      simp at h
    | @cons l' e' _ s' hl' he' hnot _ =>
      rw [terminatedLines_append hl' he' hnot] at h
      obtain ⟨rfl, hrest⟩ := List.cons.inj h
      have hsource : s' = (run.flatMap (fun p => p.1 ++ p.2) ++ l) ++ (e ++ after.flatMap fun p => p.1 ++ p.2) := by
        rw [← flatten_terminatedLines s', hrest]
        simp
      -- what follows a carriage return starts as before, since something is left of it
      have hfront : e' = ['\r'] → (run.flatMap (fun p => p.1 ++ p.2) ++ l).head? ≠ some '\n' := by
        intro hreturn
        rw [hsource, List.head?_append_of_ne_nil _ (by simp [hne])] at hnot
        exact hnot hreturn
      rw [List.flatMap_cons, List.append_assoc, List.append_assoc, terminatedLines_append hl' he' hfront, ih hrest,
        List.cons_append]

theorem Excerpt.place_append (n : Nat) (before parts : List (Text × Text)) : place n (before ++ parts) =
    place n before ++ place (n + byteLength (before.flatMap fun p => p.1 ++ p.2)) parts := by
  induction before generalizing n with
  | nil => rfl
  | cons p before ih =>
    have hsum : n + byteLength ((p :: before).flatMap fun p => p.1 ++ p.2) =
        n + byteLength p.1 + byteLength p.2 + byteLength (before.flatMap fun p => p.1 ++ p.2) := by
      simp
      omega
    rw [List.cons_append, place, ih, hsum, place, List.cons_append]

/-- Excerpts laid out one after the other are parted where their texts are. -/
theorem Excerpt.exists_of_place_eq_append (h : place n parts = xs ++ ys) : ∃ before behind, parts = before ++ behind ∧
    place n before = xs ∧ place (n + byteLength (before.flatMap fun p => p.1 ++ p.2)) behind = ys := by
  have hlength : ∀ (n : Nat) (ps : List (Text × Text)), (place n ps).length = ps.length := fun n ps => by
    simpa using congrArg List.length (map_text_place n ps)
  have hparts := (List.take_append_drop xs.length parts).symm
  rw [hparts, place_append] at h
  obtain ⟨hxs, hys⟩ := List.append_inj h (by
    have hall := congrArg List.length h
    simp only [List.length_append, hlength, List.length_take, List.length_drop] at hall ⊢
    omega)
  exact ⟨_, _, hparts, hxs, hys⟩

/-- No line stands in a source twice. -/
theorem Lined.nodup {ls : List Text} (h : Lined ls s) (n : Nat) : (Excerpt.place n (terminatedLines s)).Nodup := by
  induction h generalizing n with
  | nil => simp [terminatedLines, Excerpt.place]
  | last hne hl => simp [terminatedLines_eq_singleton hne hl, Excerpt.place]
  | @cons l e ls s hl he hs _ ih =>
    rw [terminatedLines_append hl he hs, Excerpt.place]
    refine List.nodup_cons.mpr ⟨fun hmem => ?_, ih _⟩
    have hpos : 0 < byteLength e := by cases he <;> decide
    have hbehind : n + byteLength l + byteLength e ≤ n :=
      ((inOrder_place _ _).bounds _ (List.mem_map_of_mem hmem)).1
    omega

theorem nodup_lines (src : Text) : (lines src).Nodup := by
  obtain ⟨ls, h⟩ := exists_lined src
  exact h.nodup 0

end Lines

/-! ## Runs of lines -/

namespace Group

variable {g : Group} {ls before rest between after : List Excerpt} {l m : Excerpt}

/-- A group stands among the lines in one piece, and a blank line or none follows it. -/
theorem exists_run (hg : g ∈ ofLines ls) :
    ∃ before after, ls = before ++ (g.lines ++ after) ∧ ∀ b ∈ after.head?, b.isBlank = true := by
  fun_induction ofLines ls with
  | case1 => cases hg
  | case2 l ls h ih =>
    obtain ⟨before, after, rfl, hafter⟩ := ih hg
    exact ⟨l :: before, after, rfl, hafter⟩
  | case3 l ls h ih =>
    rcases List.mem_cons.mp hg with rfl | hg
    · refine ⟨[], ls.dropWhile (!·.isBlank), ?_, fun b hb => ?_⟩
      · rw [lines, List.nil_append, List.cons_append, List.takeWhile_append_dropWhile]
      · have hnot := List.head?_dropWhile_not (!·.isBlank) ls
        rw [Option.mem_def.mp hb] at hnot
        simpa using hnot
    · obtain ⟨before, after, hrest, hafter⟩ := ih hg
      refine ⟨l :: ls.takeWhile (!·.isBlank) ++ before, after, ?_, hafter⟩
      rw [List.append_assoc, ← hrest, List.cons_append, List.takeWhile_append_dropWhile]

/-- What comes behind a line of a group: the rest of the group, and then a blank line or none. -/
theorem exists_behind (hnodup : ls.Nodup) (hls : ls = before ++ l :: rest) (hg : g ∈ ofLines ls) (hl : l ∈ g.lines) :
    ∃ front own others, g.lines = front ++ l :: own ∧ front <:+ before ∧ rest = own ++ others ∧
      ∀ b ∈ others.head?, b.isBlank = true := by
  obtain ⟨above, others, hrun, hblank⟩ := exists_run hg
  obtain ⟨front, own, hlines⟩ := List.append_of_mem hl
  rw [hls] at hnodup
  obtain ⟨-, hbehind, hapart⟩ := List.nodup_append.mp hnodup
  have hsplit : before ++ l :: rest = (above ++ front) ++ l :: (own ++ others) := by
    rw [← hls, hrun, hlines]
    simp
  have hfront : l ∉ before := fun h => hapart l h l List.mem_cons_self rfl
  obtain ⟨hbefore, -, hrest⟩ :=
    (List.append_cons_inj_of_notMem hfront (List.nodup_cons.mp hbehind).1).mp hsplit
  exact ⟨front, own, others, hlines, ⟨above, hbefore.symm⟩, hrest, hblank⟩

/-- Two lines with nothing but blank lines between them are in one group exactly if there is nothing between them. -/
theorem same_iff (hnodup : ls.Nodup) (hls : ls = before ++ l :: (between ++ m :: after)) (hl : l.isBlank = false)
    (hm : m.isBlank = false) (hbetween : ∀ b ∈ between, b.isBlank = true) :
    (∃ g ∈ ofLines ls, l ∈ g.lines ∧ m ∈ g.lines) ↔ between = [] := by
  have hall := flatMap_lines_ofLines ls
  constructor
  · rintro ⟨g, hg, hlg, hmg⟩
    obtain ⟨front, own, others, hlines, hfront, hrest, -⟩ := exists_behind hnodup hls hg hlg
    cases between with
    | nil => rfl
    | cons b between =>
      cases own with
      | nil =>
        -- then the other line stands in front of the first, or is the first
        rw [hls] at hnodup
        obtain ⟨-, hbehind, hapart⟩ := List.nodup_append.mp hnodup
        have hmbehind : m ∈ b :: between ++ m :: after := by simp
        rw [hlines] at hmg
        rcases List.mem_append.mp hmg with hmf | hml
        · exact absurd rfl (hapart m (hfront.subset hmf) m (List.mem_cons_of_mem l hmbehind))
        · obtain rfl := List.mem_singleton.mp hml
          exact absurd hmbehind (List.nodup_cons.mp hbehind).1
      | cons b' own =>
        obtain ⟨rfl, -⟩ := List.cons.inj hrest
        have hb : b ∈ ls.filter (!·.isBlank) := by
          rw [← hall]
          exact List.mem_flatMap.mpr ⟨g, hg, by simp [hlines]⟩
        have hblank := hbetween b List.mem_cons_self
        simp [hblank] at hb
  · rintro rfl
    have hmem : l ∈ ls.filter (!·.isBlank) := List.mem_filter.mpr ⟨by simp [hls], by simp [hl]⟩
    rw [← hall] at hmem
    obtain ⟨g, hg, hlg⟩ := List.mem_flatMap.mp hmem
    obtain ⟨front, own, others, hlines, -, hrest, hblank⟩ := exists_behind hnodup hls hg hlg
    refine ⟨g, hg, hlg, ?_⟩
    cases own with
    | nil =>
      have hmblank : m.isBlank = true := hblank m (by rw [← List.nil_append others, ← hrest]; rfl)
      rw [hm] at hmblank
      cases hmblank
    | cons m' own =>
      obtain ⟨rfl, -⟩ := List.cons.inj hrest
      simp [hlines]

/-- A group ends where its last line does. -/
theorem span_stop {front : List Excerpt} (h : g.lines = front ++ [l]) : g.span.stop = l.span.stop := by
  have hlast := congrArg List.getLast? h
  rw [lines, List.getLast?_cons, List.getLast?_concat] at hlast
  rw [span, Option.some.inj hlast]

/-- The lines of a group by themselves are one group. -/
theorem ofLines_lines (hg : ∀ l ∈ g.lines, l.isBlank = false) : ofLines g.lines = [g] := by
  obtain ⟨hdeclaration, hbody⟩ := List.forall_mem_cons.mp hg
  have hend : ∀ y ∈ ([] : List Excerpt).head?, y.isBlank = true := by simp
  have hrun := ofLines_run hdeclaration hbody hend
  rw [List.append_nil, ofLines] at hrun
  exact hrun

end Group

/-! ## Groups that are cut out -/

section Cut

variable {src : Text} {g : Group}

/-- The lines of a group with what ends them among those of the source. The last of them is not empty, and what ends it
is behind the group. -/
theorem exists_parts_of_group (hg : g ∈ groups src) : ∃ before run l e after,
    terminatedLines src = before ++ (run ++ (l, e) :: after) ∧ l ≠ [] ∧
      g.lines = Excerpt.place (byteLength (before.flatMap fun p => p.1 ++ p.2)) (run ++ [(l, [])]) := by
  obtain ⟨above, below, hrun, -⟩ := Group.exists_run hg
  obtain ⟨before, rest, hparts, -, hrest⟩ := Excerpt.exists_of_place_eq_append hrun
  obtain ⟨own, after, rfl, hown, -⟩ := Excerpt.exists_of_place_eq_append hrest
  rw [Nat.zero_add] at hown
  rcases List.eq_nil_or_concat' own with rfl | ⟨run, ⟨l, e⟩, rfl⟩
  · cases hown
  · rw [List.append_assoc, List.singleton_append] at hparts
    rw [Excerpt.place_append] at hown
    refine ⟨before, run, l, e, after, hparts, ?_, by rw [Excerpt.place_append]; exact hown.symm⟩
    rintro rfl
    have hlast := (standsIn_of_mem_group hg ⟨[], _⟩ (hown ▸ List.mem_append_right _ List.mem_cons_self)).2
    cases hlast

/-- What a group spans is read as this group alone, moved to the front. -/
theorem exists_group_of_cut (hg : g ∈ groups src) :
    ∃ t g', g.span.cut? src = some t ∧ groups t = [g'] ∧ g'.shift g.span.start = g := by
  obtain ⟨before, run, l, e, after, hparts, hne, hown⟩ := exists_parts_of_group hg
  obtain ⟨s, hs⟩ := exists_terminatedLines_eq hparts
  have hsource : src = before.flatMap (fun p => p.1 ++ p.2) ++ (run.flatMap (fun p => p.1 ++ p.2) ++ l) ++
      (e ++ after.flatMap fun p => p.1 ++ p.2) := by
    rw [← flatten_terminatedLines src, hparts]
    simp
  generalize before.flatMap (fun p => p.1 ++ p.2) = above at hown hsource
  have hstart : g.span.start = byteLength above := by
    show g.declaration.start = _
    cases run with
    | nil => exact congrArg Excerpt.start (List.cons.inj hown).1
    | cons p run => exact congrArg Excerpt.start (List.cons.inj hown).1
  have hstop : g.span.stop = byteLength above + byteLength (run.flatMap (fun p => p.1 ++ p.2) ++ l) := by
    rw [Excerpt.place_append] at hown
    rw [Group.span_stop hown, byteLength_append, ← Nat.add_assoc]
    rfl
  have hmoved : (lines (run.flatMap (fun p => p.1 ++ p.2) ++ l)).map (·.shift g.span.start) = g.lines := by
    rw [lines, terminatedLines_run hne hs, ← Excerpt.place_shift, Nat.zero_add, hstart, hown]
  have hgroups : (groups (run.flatMap (fun p => p.1 ++ p.2) ++ l)).map (·.shift g.span.start) = [g] := by
    rw [groups, ← Group.ofLines_shift, hmoved]
    exact Group.ofLines_lines fun x hx => (standsIn_of_mem_group hg x hx).2
  obtain ⟨g', hg', hshift⟩ := List.map_eq_singleton_iff.mp hgroups
  refine ⟨_, g', Span.cut?_eq_some_iff.mpr ⟨_, _, hsource, ?_⟩, hg', hshift⟩
  rw [← hstop, ← hstart]

end Cut

/-- **Groups are the longest runs of lines that are not blank**, in their order, and what a group spans is one group
when it is read on its own. -/
theorem groups_longest_runs (src : Text) :
    gather [] (lines src) = (groups src).map Group.lines ∧
    (∀ g ∈ groups src, g.lines ≠ [] ∧ ∀ l ∈ g.lines, l.isBlank = false) ∧
    (groups src).flatMap Group.lines = (lines src).filter (!·.isBlank) ∧
    (∀ before l between m after, lines src = before ++ l :: (between ++ m :: after) → l.isBlank = false →
      m.isBlank = false → (∀ b ∈ between, b.isBlank = true) →
      ((∃ g ∈ groups src, l ∈ g.lines ∧ m ∈ g.lines) ↔ between = [])) ∧
    ∀ g ∈ groups src, ∃ t g', g.span.cut? src = some t ∧ groups t = [g'] ∧ g'.shift g.span.start = g := by
  refine ⟨gather_nil _, fun g hg => ⟨List.cons_ne_nil _ _, fun l hl => (standsIn_of_mem_group hg l hl).2⟩,
    Group.flatMap_lines_ofLines _, fun before l between m after hls => Group.same_iff (nodup_lines src) hls,
    fun g => exists_group_of_cut⟩

end EnumStrings
