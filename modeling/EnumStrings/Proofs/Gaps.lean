import EnumStrings.Proofs.Strokes

/-!
# When an empty line is left out

A text is what its strokes write, each on the line in progress or on a line that it starts, with tabs and perhaps an
empty line in front of it (`laidOut`); a stroke that asks for an empty line writes nothing itself (`render_eq_laidOut`).

No empty line stands at the front of a text, behind an opening brace or in front of a closing one, whoever asks for it.
For the line that comes next these are all reasons, but for a closing brace behind a line in progress
(`gap_behind_eq_barred_iff`): every other empty line that is asked for stands directly in front of the next line, and
only one, however often it is asked for (`render_asking`).
-/

namespace EnumStrings

/-- What strokes write that start no line. -/
def inLine (strokes : List Stroke) : Text := strokes.flatMap fun s => s.text ++ s.lineEnd

/-- What strokes write behind others, if `spaced` tells whether an empty line stands in front of a line, given the
strokes before it and the one that starts it. -/
def laidOut (spaced : List Stroke → Stroke → Bool) (before : List Stroke) : List Stroke → Text
  | [] => []
  | s :: later =>
    (if startsLine before s then
      (if spaced before s then ['\n'] else []) ++ List.replicate (s.startDepth (depthBehind before)) '\t' else []) ++
    (s.text ++ (s.lineEnd ++ laidOut spaced (before ++ [s]) later))

/-- Whether an empty line stands in front of the line that a stroke starts. -/
def isSpaced (before : List Stroke) (next : Stroke) : Bool := (behind before).gap = .wanted && !next.isClosing

/-- An opening brace has been written, and no line has been started since. -/
def AfterOpening (strokes : List Stroke) : Prop :=
  ∃ front back, strokes = front ++ .opening :: back ∧ starts (front ++ [.opening]) back = []

/-- A closing brace has been put behind a line in progress, and no line has been started since. -/
def AfterClosedLine (strokes : List Stroke) : Prop :=
  ∃ front suffix back, strokes = front ++ .closing suffix :: back ∧ inProgress front = true ∧
    starts (front ++ [.closing suffix]) back = []

/-- Why an empty line that is asked for behind `before` is left out, if the stroke `next` starts the next line. -/
inductive Dropped (before : List Stroke) (next : Stroke) : Prop
  /-- No line has been started. -/
  | first : starts [] before = [] → Dropped before next
  /-- No line has been started since the last opening brace. -/
  | opened : AfterOpening before → Dropped before next
  /-- The next line is started by a closing brace. -/
  | closing : next.isClosing = true → Dropped before next

theorem Stroke.isOpening_iff {s : Stroke} : s.isOpening = true ↔ s = .opening := by
  cases s <;> simp [isOpening]

theorem Stroke.isClosing_iff {s : Stroke} : s.isClosing = true ↔ ∃ suffix, s = .closing suffix := by
  cases s <;> simp [isClosing]

/-! ## What strokes write -/

section LaidOut

variable {spaced : List Stroke → Stroke → Bool} {before strokes : List Stroke} {s : Stroke}

theorem laidOut_append (spaced : List Stroke → Stroke → Bool) (before strokes others : List Stroke) :
    laidOut spaced before (strokes ++ others) =
      laidOut spaced before strokes ++ laidOut spaced (before ++ strokes) others := by
  induction strokes generalizing before with
  | nil => simp [laidOut]
  | cons s strokes ih =>
    rw [List.cons_append, laidOut, laidOut, ih, List.append_cons before s strokes]
    simp only [List.append_assoc]

/-- Where no line is started, strokes write what they put on the line in progress, and end it. -/
theorem laidOut_of_starts_eq_nil (h : starts before strokes = []) : laidOut spaced before strokes = inLine strokes := by
  induction strokes generalizing before with
  | nil => rfl
  | cons s strokes ih =>
    obtain ⟨hs, hrest⟩ := starts_cons_eq_nil_iff.mp h
    rw [laidOut, hs, ih hrest, inLine, inLine, List.flatMap_cons, List.append_assoc]
    rfl

/-- A stroke that starts no line writes no more than it puts on the line. -/
theorem draw_of_not_startsLine (h : startsLine before s = false) :
    ((behind before).draw [s]).1 = s.text ++ s.lineEnd := by
  have hmid := startsLine_eq_false_iff.mp h
  rw [← midLine_behind] at hmid
  generalize behind before = l at hmid ⊢
  obtain ⟨depth, mid, gap⟩ := l
  cases s with
  | newline | asking => rfl
  | write text | opening | closing suffix =>
    obtain rfl : mid = true := hmid rfl
    simp [Layout.draw, Layout.run, Layout.perform]

theorem isSpaced_iff : isSpaced before s = true ↔ (behind before).gap = .wanted ∧ s.isClosing = false := by
  rw [isSpaced, Bool.and_eq_true, decide_eq_true_eq, Bool.not_eq_true']

/-- What one stroke writes. -/
theorem draw_singleton (before : List Stroke) (s : Stroke) :
    ((behind before).draw [s]).1 = laidOut isSpaced before [s] := by
  cases h : startsLine before s with
  | true =>
    rw [draw_of_startsLine h, laidOut, laidOut, if_pos h, List.append_nil, List.append_assoc]
    exact congrArg (· ++ _) (if_congr isSpaced_iff.symm rfl rfl)
  | false => simp [draw_of_not_startsLine h, laidOut, h]

/-- What strokes write, one after the other. -/
theorem draw_eq_laidOut (before strokes : List Stroke) :
    ((behind before).draw strokes).1 = laidOut isSpaced before strokes := by
  induction strokes generalizing before with
  | nil => rfl
  | cons s strokes ih =>
    rw [← List.singleton_append, Layout.draw_append, laidOut_append, ← ih (before ++ [s]), ← behind_append,
      ← draw_singleton]

/-- The text that steps describe is laid out from their strokes. -/
theorem render_eq_laidOut (steps : List Step) : render steps = laidOut isSpaced [] (strokesOf steps) :=
  (render_eq_drawn steps).trans (draw_eq_laidOut [] (strokesOf steps))

end LaidOut

/-! ## What bars an empty line -/

section Bars

variable {before between front back strokes : List Stroke} {b s : Stroke} {p : Start}

/-- An empty line that is barred stays so until a line is started. -/
theorem gap_behind_append (h : starts before strokes = []) (hgap : (behind before).gap = .barred) :
    (behind (before ++ strokes)).gap = .barred := by
  induction strokes generalizing before with
  | nil => rwa [List.append_nil]
  | cons s strokes ih =>
    obtain ⟨hs, hrest⟩ := starts_cons_eq_nil_iff.mp h
    rw [List.append_cons before s strokes]
    refine ih hrest ?_
    rw [gap_behind_concat, hgap, leavesGap_barred hs]

/-- A brace that starts no line stands behind a line in progress. -/
theorem inProgress_of_isBrace (hb : b.isBrace = true) (h : startsLine before b = false) : inProgress before = true := by
  have hwrites : b.writes = true := by
    cases b with
    | newline | write text | asking => cases hb
    | opening | closing suffix => rfl
  exact startsLine_eq_false_iff.mp h hwrites

theorem Start.gap_eq_barred_iff : p.gap = .barred ↔ p.isBarred = true := by
  unfold gap
  split
  · simp [*]
  · split <;> simp [*]

/-- What bars an empty line is a brace: it starts the line that was started last, or stands behind it. -/
theorem after_of_isBarred (h : (starts [] strokes).getLast? = some p) (hp : p.isBarred = true) :
    AfterOpening strokes ∨ AfterClosedLine strokes := by
  obtain ⟨hparts, -, hlater⟩ := of_getLast?_starts h
  rw [List.nil_append] at hparts
  rcases Bool.or_eq_true_iff.mp hp with hopening | hbrace
  · rw [Stroke.isOpening_iff.mp hopening] at hparts hlater
    exact Or.inl ⟨p.before, p.after, hparts, hlater⟩
  · obtain ⟨b, hmem, hb⟩ := List.any_eq_true.mp hbrace
    obtain ⟨x, y, hafter⟩ := List.append_of_mem hmem
    -- no line is started behind the line that was started last, by the brace as little as by others
    rw [hafter, starts_append_eq_nil_iff, starts_cons_eq_nil_iff] at hlater
    obtain ⟨-, hnot, hlater⟩ := hlater
    have hmid := inProgress_of_isBrace hb hnot
    have hsplit : strokes = p.before ++ [p.stroke] ++ x ++ b :: y := by simp [hparts, hafter]
    rcases Bool.or_eq_true_iff.mp hb with hopening | hclosing
    · rw [Stroke.isOpening_iff.mp hopening] at hsplit hlater
      exact Or.inl ⟨_, y, hsplit, hlater⟩
    · obtain ⟨suffix, rfl⟩ := Stroke.isClosing_iff.mp hclosing
      exact Or.inr ⟨_, suffix, y, hsplit, hmid, hlater⟩

/-- An empty line is barred at the front of the text, behind an opening brace, and behind a closing brace on a line in
progress. -/
theorem gap_behind_eq_barred_iff : (behind strokes).gap = .barred ↔
    starts [] strokes = [] ∨ AfterOpening strokes ∨ AfterClosedLine strokes := by
  constructor
  · intro h
    rw [gap_behind] at h
    cases hlast : (starts [] strokes).getLast? with
    | none => exact Or.inl (List.getLast?_eq_none_iff.mp hlast)
    | some p =>
      rw [hlast, Option.map_some, Option.getD_some] at h
      exact Or.inr (after_of_isBarred hlast (Start.gap_eq_barred_iff.mp h))
  · rintro (h | ⟨front, back, rfl, hback⟩ | ⟨front, suffix, back, rfl, hmid, hback⟩)
    · exact gap_behind_append h rfl
    · rw [List.append_cons]
      exact gap_behind_append hback (by rw [gap_behind_concat]; rfl)
    · rw [List.append_cons]
      exact gap_behind_append hback (by rw [gap_behind_concat, hmid]; rfl)

/-- No line is started between an opening brace and the end of the strokes where the brace stands in front of `between`,
or in it. -/
theorem afterOpening_append (h : starts before between = []) :
    AfterOpening (before ++ between) ↔ AfterOpening before ∨ .opening ∈ between := by
  constructor
  · rintro ⟨front, back, hparts, hback⟩
    rcases List.append_eq_append_iff.mp hparts with ⟨t, -, ht⟩ | ⟨t, hbefore, ht⟩
    · exact Or.inr (ht ▸ List.mem_append_right t List.mem_cons_self)
    · rcases List.cons_eq_append_iff.mp ht with ⟨rfl, ht⟩ | ⟨t, rfl, rfl⟩
      · rw [List.nil_append] at ht
        exact Or.inr (ht ▸ List.mem_cons_self)
      · exact Or.inl ⟨front, t, hbefore, (starts_append_eq_nil_iff.mp hback).1⟩
  · rintro (⟨front, back, rfl, hback⟩ | hmem)
    · refine ⟨front, back ++ between, by simp, starts_append_eq_nil_iff.mpr ⟨hback, ?_⟩⟩
      rwa [← List.append_cons]
    · obtain ⟨x, y, rfl⟩ := List.append_of_mem hmem
      rw [starts_append_eq_nil_iff, starts_cons_eq_nil_iff] at h
      exact ⟨before ++ x, y, by simp, h.2.2⟩

/-- An empty line that has been asked for is barred or wanted, until the next line is started. -/
theorem gap_behind_asking (h : starts (before ++ [.asking]) between = []) :
    (behind (before ++ .asking :: between)).gap ≠ .unasked := by
  have hnone : starts before (.asking :: between) = [] := starts_cons_eq_nil_iff.mpr ⟨rfl, h⟩
  rw [gap_behind, starts_append, List.nil_append, hnone, List.append_nil, List.getLast?_map]
  cases (starts [] before).getLast? with
  | none => exact Gap.noConfusion
  | some p =>
    have hasked : Stroke.asking ∈ (p.extend (.asking :: between)).after := List.mem_append_right _ List.mem_cons_self
    rw [Option.map_some, Option.map_some, Option.getD_some, Start.gap, if_pos hasked]
    split <;> decide

/-- It is wanted unless something bars it or the next line is started by a closing brace. -/
theorem wanted_iff (next : Stroke) (h : starts (before ++ [.asking]) between = []) :
    (behind (before ++ .asking :: between)).gap = .wanted ∧ next.isClosing = false ↔
      ¬ Dropped before next ∧ .opening ∉ between ∧ ¬ AfterClosedLine (before ++ .asking :: between) := by
  have hnone : starts before (.asking :: between) = [] := starts_cons_eq_nil_iff.mpr ⟨rfl, h⟩
  have hbarred : (behind (before ++ .asking :: between)).gap = .barred ↔ _ := gap_behind_eq_barred_iff
  rw [starts_append_eq_nil_iff, List.nil_append, afterOpening_append hnone] at hbarred
  constructor
  · rintro ⟨hwanted, hclosing⟩
    have hnot : (behind (before ++ .asking :: between)).gap ≠ .barred := by
      rw [hwanted]
      decide
    refine ⟨?_, fun hmem => ?_, fun hclosed => hnot (hbarred.mpr (Or.inr (Or.inr hclosed)))⟩
    · rintro (hfirst | hopened | hclosing')
      · exact hnot (hbarred.mpr (Or.inl ⟨hfirst, hnone⟩))
      · exact hnot (hbarred.mpr (Or.inr (Or.inl (Or.inl hopened))))
      · rw [hclosing] at hclosing'
        cases hclosing'
    · exact hnot (hbarred.mpr (Or.inr (Or.inl (Or.inr (List.mem_cons_of_mem _ hmem)))))
  · rintro ⟨hkept, hopening, hclosed⟩
    refine ⟨?_, by simpa using mt Dropped.closing hkept⟩
    have hunasked := gap_behind_asking h
    cases hgap : (behind (before ++ .asking :: between)).gap with
    | wanted => rfl
    | unasked => exact absurd hgap hunasked
    | barred =>
      rcases hbarred.mp hgap with ⟨hfirst, -⟩ | (hopened | hmem) | hclosed'
      · exact absurd (.first hfirst) hkept
      · exact absurd (.opened hopened) hkept
      · exact absurd (by simpa using hmem) hopening
      · exact absurd hclosed' hclosed

/-- An empty line stands in front of a line only if it has been asked for since the line before was started. -/
theorem exists_asking_of_isSpaced (h : isSpaced strokes s = true) : ∃ front back,
    strokes = front ++ .asking :: back ∧ starts (front ++ [.asking]) back = [] := by
  have hwanted := (isSpaced_iff.mp h).1
  rw [gap_behind] at hwanted
  cases hlast : (starts [] strokes).getLast? with
  | none => simp [hlast] at hwanted
  | some p =>
    rw [hlast, Option.map_some, Option.getD_some] at hwanted
    have hasked : Stroke.asking ∈ p.after := by
      by_contra hnot
      rw [Start.gap, if_neg hnot] at hwanted
      split at hwanted <;> cases hwanted
    obtain ⟨hparts, -, hlater⟩ := of_getLast?_starts hlast
    obtain ⟨x, y, hafter⟩ := List.append_of_mem hasked
    rw [hafter, starts_append_eq_nil_iff, starts_cons_eq_nil_iff] at hlater
    exact ⟨p.before ++ [p.stroke] ++ x, y, by simpa [hafter] using hparts, hlater.2.2⟩

/-- **When an empty line that is asked for is left out**: a line feed stands in front of the next line unless that comes
first, closes a brace or follows an opening one. -/
theorem render_asking : ∃ spaced : List Stroke → Stroke → Bool,
    (∀ before next, spaced before next = true →
      ∃ front back, before = front ++ .asking :: back ∧ starts (front ++ [.asking]) back = []) ∧
    ∀ steps, render steps = laidOut spaced [] (strokesOf steps) ∧
      ∀ before later, strokesOf steps = before ++ .asking :: later →
        (starts (before ++ [.asking]) later = [] → render steps = laidOut spaced [] before ++ inLine later) ∧
        (starts (before ++ [.asking]) later ≠ [] → ∃ between next after, later = between ++ next :: after ∧
          starts (before ++ [.asking]) between = [] ∧ startsLine (before ++ .asking :: between) next = true) ∧
        ∀ between next after, later = between ++ next :: after → starts (before ++ [.asking]) between = [] →
          startsLine (before ++ .asking :: between) next = true →
          render steps = laidOut spaced [] before ++ (inLine between ++
            ((if spaced (before ++ .asking :: between) next then ['\n'] else []) ++
              (List.replicate (next.startDepth (depthBehind (before ++ .asking :: between))) '\t' ++
                (next.text ++ (next.lineEnd ++ laidOut spaced (before ++ .asking :: between ++ [next]) after))))) ∧
          (¬ Dropped before next → .opening ∉ between → ¬ AfterClosedLine (before ++ .asking :: between) →
            spaced (before ++ .asking :: between) next = true) ∧
          (Dropped before next ∨ .opening ∈ between → spaced (before ++ .asking :: between) next = false) := by
  refine ⟨isSpaced, fun _ _ => exists_asking_of_isSpaced, fun steps => ⟨render_eq_laidOut steps, ?_⟩⟩
  intro before later hsteps
  have hrender : render steps = laidOut isSpaced [] before ++ laidOut isSpaced (before ++ [.asking]) later := by
    rw [render_eq_laidOut, hsteps, laidOut_append]
    rfl
  refine ⟨fun hlater => ?_, fun hlater => ?_, ?_⟩
  · rw [hrender, laidOut_of_starts_eq_nil hlater]
  · obtain ⟨between, next, after, hparts, hbetween, hnext⟩ := exists_start hlater
    rw [← List.append_cons] at hnext
    exact ⟨between, next, after, hparts, hbetween, hnext⟩
  · rintro between next after rfl hbetween hnext
    have hspaced := wanted_iff next hbetween
    refine ⟨?_, fun hkept hopening hclosed => ?_, fun hdropped => ?_⟩
    · rw [hrender, laidOut_append, laidOut_of_starts_eq_nil hbetween, ← List.append_cons, laidOut, if_pos hnext]
      simp only [List.append_assoc]
    · exact isSpaced_iff.mpr (hspaced.mpr ⟨hkept, hopening, hclosed⟩)
    · refine Bool.eq_false_iff.mpr fun htrue => ?_
      obtain ⟨hkept, hopening, -⟩ := hspaced.mp (isSpaced_iff.mp htrue)
      exact hdropped.elim hkept hopening

end Bars

/-- An empty line that is asked for twice in the middle of a line stands once in front of the next line. -/
theorem render_asking_twice : ∃ spaced : List Stroke → Stroke → Bool,
    spaced [.opening, .write ['a'], .asking, .asking, .newline] (.write ['b']) = true ∧
      render [.openBlock, .write ['a'], .gap, .gap, .newline, .write ['b']] =
        laidOut spaced [] [.opening, .write ['a']] ++ "\n\n\tb".toList := by
  have hstrokes : strokesOf [.openBlock, .write ['a'], .gap, .gap, .newline, .write ['b']] =
      [.opening, .write ['a']] ++ .asking :: [.asking, .newline, .write ['b']] := rfl
  obtain ⟨spaced, -, hsteps⟩ := render_asking
  obtain ⟨htext, hkept, -⟩ := ((hsteps _).2 _ _ hstrokes).2.2 [.asking, .newline] (.write ['b']) [] rfl (by decide)
    (by decide)
  have hspaced := hkept ?_ (by decide) ?_
  · rw [hspaced] at htext
    exact ⟨spaced, hspaced, htext⟩
  · rintro (hfirst | hopened | hclosing)
    · exact absurd hfirst (by decide)
    · exact absurd (gap_behind_eq_barred_iff.mpr (Or.inr (Or.inl hopened))) (by decide)
    · cases hclosing
  · exact fun hclosed => absurd (gap_behind_eq_barred_iff.mpr (Or.inr (Or.inr hclosed))) (by decide)

/-- Behind an opening brace on the line in progress no empty line stands, although it is neither at the front of the
text nor behind another brace. -/
theorem render_asking_continued : ¬ ∀ steps : List Step, ∃ spaced : List Stroke → Stroke → Bool,
    render steps = laidOut spaced [] (strokesOf steps) ∧
    ∀ before between next after, strokesOf steps = before ++ .asking :: (between ++ next :: after) →
      starts (before ++ [.asking]) between = [] → startsLine (before ++ .asking :: between) next = true →
      ¬ Dropped before next → spaced (before ++ .asking :: between) next = true := by
  intro h
  obtain ⟨spaced, htext, hall⟩ := h [.write ['a'], .gap, .openBlock, .write ['b']]
  have hkept : ¬ Dropped [.write ['a']] (.write ['b']) := by
    rintro (hfirst | hopened | hclosing)
    · exact absurd hfirst (by decide)
    · exact absurd (gap_behind_eq_barred_iff.mpr (Or.inr (Or.inl hopened))) (by decide)
    · cases hclosing
  have hspaced : spaced [.write ['a'], .asking, .opening] (.write ['b']) = true :=
    hall [.write ['a']] [.opening] (.write ['b']) [] rfl (by decide) (by decide) hkept
  have hactual : render [.write ['a'], .gap, .openBlock, .write ['b']] = "a\x7b\n\tb".toList := by decide
  have hclaimed : laidOut spaced [] (strokesOf [.write ['a'], .gap, .openBlock, .write ['b']]) =
      (if spaced [] (.write ['a']) then ['\n'] else []) ++ ("a\x7b\n".toList ++
        ((if spaced [.write ['a'], .asking, .opening] (.write ['b']) then ['\n'] else []) ++ "\tb".toList)) := by
    simp [strokesOf, Step.strokes, laidOut, startsLine, inProgress, depthBehind, Stroke.leavesDepth]
  rw [hactual, hclaimed, hspaced] at htext
  revert htext
  cases spaced [] (.write ['a']) <;> decide

end EnumStrings
