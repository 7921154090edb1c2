import EnumStrings.Proofs.Strokes

/-!
# Texts made of the lines that are started

Where braces and banners stand on lines of their own, and a line is ended only if one is in progress (`Step.allFit`),
a text is what the lines that are started put there, one behind the other (`render_eq_flatMap_text`). Each line can be
told from the strokes around it (`Start.text`): whether an empty line stands in front of it, how far it is indented,
what is written on it and whether it is ended.

No brace stands behind a line in progress then, so that an empty line is barred by an opening brace only if this starts
the line before (`gap_behind_eq_wanted_iff`).
-/

namespace EnumStrings

/-! ## Steps in order -/

/-- Whether a stroke may be done, given whether a line is in progress. -/
def Stroke.fits (mid : Bool) : Stroke → Bool
  | newline => mid
  | opening | closing _ => !mid
  | write _ | asking => true

/-- Whether every stroke may be done where it stands. -/
def Stroke.allFit (mid : Bool) : List Stroke → Bool
  | [] => true
  | s :: strokes => s.fits mid && allFit (s.leavesLine mid) strokes

/-- Whether a step may be done: a line that is ended must be in progress, and braces and banners stand on lines of their
own. -/
def Step.fits (mid : Bool) : Step → Bool
  | newline => mid
  | openBlock | closeBlock _ | banner _ => !mid
  | write _ | line _ | gap => true

/-- Whether every step may be done where it stands. -/
def Step.allFit (mid : Bool) : List Step → Bool
  | [] => true
  | s :: steps => s.fits mid && allFit (s.strokes.foldl Stroke.leavesLine mid) steps

/-! ## Lines -/

/-- The strokes that go on with a line in progress: those in front of its end. -/
def continuation (strokes : List Stroke) : List Stroke := strokes.takeWhile (· ≠ .newline)

namespace Start

/-- Whether an empty line is asked for in front of a line that is not the first, no closing brace, and not behind an
opening brace. -/
def isSpaced (p : Start) : Bool :=
  !p.stroke.isClosing && (starts [] p.before).getLast?.any fun q => !q.stroke.isOpening && q.after.contains .asking

/-- How far a line is indented. -/
def depth (p : Start) : Nat := p.stroke.startDepth (depthBehind p.before)

/-- What is written on a line: a brace stands alone. -/
def written (p : Start) : Text :=
  p.stroke.text ++ if p.stroke.isBrace then [] else (continuation p.after).flatMap Stroke.text

/-- Whether a line is ended: a brace ends its line. -/
def isEnded (p : Start) : Bool := p.stroke.isBrace || p.after.contains .newline

/-- A line, with the empty line in front of it. -/
def text (p : Start) : Text :=
  (if p.isSpaced then ['\n'] else []) ++
    (List.replicate p.depth '\t' ++ (p.written ++ if p.isEnded then ['\n'] else []))

end Start

/-! ## Strokes in order -/

section Orderly

variable {before strokes : List Stroke} {mid : Bool}

theorem Stroke.allFit_append (mid : Bool) (strokes others : List Stroke) :
    allFit mid (strokes ++ others) = (allFit mid strokes && allFit (strokes.foldl leavesLine mid) others) := by
  induction strokes generalizing mid with
  | nil => rfl
  | cons s strokes ih => rw [List.cons_append, allFit, ih, allFit, Bool.and_assoc, List.foldl_cons]

/-- The strokes of a step are in order where the step is. -/
theorem Step.allFit_strokes {s : Step} (h : s.fits mid = true) : Stroke.allFit mid s.strokes = true := by
  cases s with
  | newline | openBlock | closeBlock suffix => simpa [Stroke.allFit, strokes, Stroke.fits, Step.fits] using h
  | write text | line text | gap => rfl
  | banner title => rfl

theorem allFit_strokesOf {steps : List Step} (h : Step.allFit mid steps = true) :
    Stroke.allFit mid (strokesOf steps) = true := by
  induction steps generalizing mid with
  | nil => rfl
  | cons s steps ih =>
    rw [Step.allFit, Bool.and_eq_true] at h
    rw [strokesOf, List.flatMap_cons, Stroke.allFit_append, Bool.and_eq_true]
    exact ⟨Step.allFit_strokes h.1, ih h.2⟩

/-- A brace in order starts a line. -/
theorem any_isBrace_eq_false (hfit : Stroke.allFit (inProgress before) strokes = true)
    (h : starts before strokes = []) : strokes.any Stroke.isBrace = false := by
  induction strokes generalizing before with
  | nil => rfl
  | cons s strokes ih =>
    obtain ⟨hs, hrest⟩ := starts_cons_eq_nil_iff.mp h
    obtain ⟨hfits, hfit⟩ := Bool.and_eq_true_iff.mp hfit
    rw [List.any_cons, ih (by rwa [inProgress_concat]) hrest, Bool.or_false]
    cases s with
    | newline | write text | asking => rfl
    | opening | closing suffix =>
      have hmid := startsLine_eq_false_iff.mp hs rfl
      simp [Stroke.fits, hmid] at hfits

/-- When an empty line is wanted, where strokes are in order. -/
theorem gap_behind_eq_wanted_iff (hfit : Stroke.allFit false strokes = true) : (behind strokes).gap = .wanted ↔
    ((starts [] strokes).getLast?.any fun q => !q.stroke.isOpening && q.after.contains .asking) = true := by
  rw [gap_behind]
  cases hlast : (starts [] strokes).getLast? with
  | none => simp
  | some q =>
    obtain ⟨hparts, -, hlater⟩ := of_getLast?_starts hlast
    have hbrace : q.after.any Stroke.isBrace = false := by
      refine any_isBrace_eq_false ?_ hlater
      rw [List.nil_append, List.append_cons] at hparts
      rw [hparts, Stroke.allFit_append, Bool.and_eq_true] at hfit
      exact hfit.2
    have hbarred : q.isBarred = q.stroke.isOpening := by rw [Start.isBarred, hbrace, Bool.or_false]
    rw [Option.map_some, Option.getD_some, Option.any_some, Start.gap, hbarred]
    cases q.stroke.isOpening <;> simp

end Orderly

/-! ## The text of the lines -/

section Texts

variable {before strokes : List Stroke} {s : Stroke}

/-- What is still to come of a line in progress. -/
def lineRest (strokes : List Stroke) : Text :=
  (continuation strokes).flatMap Stroke.text ++ if strokes.contains .newline then ['\n'] else []

/-- A stroke that starts a line adds the beginning of it; a brace adds all of it. -/
theorem text_of_startsLine (hfit : Stroke.allFit false before = true) (h : startsLine before s = true)
    (after : List Stroke) : (⟨before, s, after⟩ : Start).text =
      ((behind before).draw [s]).1 ++ if s.leavesLine (inProgress before) then lineRest after else [] := by
  have hspaced : (⟨before, s, after⟩ : Start).isSpaced = true ↔
      (behind before).gap = .wanted ∧ s.isClosing = false := by
    rw [Start.isSpaced, Bool.and_eq_true, gap_behind_eq_wanted_iff hfit, Bool.not_eq_true', and_comm]
  have hrest : (⟨before, s, after⟩ : Start).written ++ (if (⟨before, s, after⟩ : Start).isEnded then ['\n'] else []) =
      s.text ++ (s.lineEnd ++ if s.leavesLine (inProgress before) then lineRest after else []) := by
    cases s with
    | newline | asking => cases h
    | write text =>
      simp [Start.written, Start.isEnded, Stroke.isBrace, lineRest]
    | opening | closing suffix =>
      simp [Start.written, Start.isEnded, Stroke.isBrace]
  rw [Start.text, hrest, draw_of_startsLine h, Start.depth, if_congr hspaced rfl rfl]
  simp only [List.append_assoc]

/-- A stroke that starts no line goes on with the line in progress, or writes nothing. -/
theorem lineRest_cons (hfits : s.fits (inProgress before) = true) (h : startsLine before s = false)
    (after : List Stroke) : (if inProgress before then lineRest (s :: after) else []) =
      ((behind before).draw [s]).1 ++ if s.leavesLine (inProgress before) then lineRest after else [] := by
  rw [← midLine_behind] at hfits ⊢
  have hwrites : s.writes = true → (behind before).midLine = true := by
    rw [midLine_behind]
    exact startsLine_eq_false_iff.mp h
  generalize behind before = l at hfits hwrites ⊢
  obtain ⟨depth, mid, gap⟩ := l
  cases s with
  | newline =>
    obtain rfl : mid = true := hfits
    simp [lineRest, continuation, Layout.draw, Layout.run, Layout.perform]
  | write text =>
    obtain rfl : mid = true := hwrites rfl
    simp [lineRest, continuation, Layout.draw, Layout.run, Layout.perform]
  | asking =>
    simp [lineRest, continuation, Layout.draw, Layout.run, Layout.perform]
  | opening | closing suffix =>
    obtain rfl : mid = true := hwrites rfl
    cases hfits

/-- Strokes in order go on with the line in progress, and then add the lines that they start. -/
theorem draw_eq_flatMap_text (hfit : Stroke.allFit false (before ++ strokes) = true) :
    ((behind before).draw strokes).1 =
      (if inProgress before then lineRest strokes else []) ++ (starts before strokes).flatMap Start.text := by
  induction strokes generalizing before with
  | nil =>
    rw [lineRest, continuation]
    simp [Layout.draw, Layout.run, starts]
  | cons s after ih =>
    have hparts : Stroke.allFit false before = true ∧ s.fits (inProgress before) = true := by
      rw [Stroke.allFit_append, Stroke.allFit] at hfit
      simp only [Bool.and_eq_true] at hfit
      exact ⟨hfit.1, hfit.2.1⟩
    rw [List.append_cons] at hfit
    have hdraw : ((behind before).draw (s :: after)).1 =
        ((behind before).draw [s]).1 ++ ((behind (before ++ [s])).draw after).1 := by
      rw [behind_append, ← List.singleton_append, Layout.draw_append]
    rw [hdraw, ih hfit, inProgress_concat, starts]
    cases hs : startsLine before s with
    | true =>
      have hmid := (startsLine_eq_true_iff.mp hs).2
      rw [if_pos rfl, List.singleton_append, List.flatMap_cons, text_of_startsLine hparts.1 hs, hmid]
      simp
    | false =>
      rw [lineRest_cons hparts.2 hs, List.append_assoc]
      rfl

end Texts

/-- **A text is made of the lines that are started**, each with the empty line in front of it, its tabs, what is written
on it and its end. -/
theorem render_eq_flatMap_text {steps : List Step} (h : Step.allFit false steps = true) :
    render steps = (starts [] (strokesOf steps)).flatMap Start.text := by
  have hfit : Stroke.allFit false ([] ++ strokesOf steps) = true := allFit_strokesOf h
  rw [render_eq_drawn]
  exact draw_eq_flatMap_text hfit

/-- Braces that nest and one too many, an empty line that is asked for in the middle of a line, and a last line that is
not ended. -/
theorem render_eq_flatMap_text_nested : Step.allFit false [.gap, .line ['a'], .closeBlock [], .gap, .openBlock, .gap,
      .write ['b'], .gap, .write ['c'], .newline, .openBlock, .gap, .closeBlock [';'], .closeBlock [], .banner ['t'],
      .write ['d']] = true ∧
    render [.gap, .line ['a'], .closeBlock [], .gap, .openBlock, .gap, .write ['b'], .gap, .write ['c'], .newline,
      .openBlock, .gap, .closeBlock [';'], .closeBlock [], .banner ['t'], .write ['d']] =
      ["a\n", "\x7d\n", "\n\x7b\n", "\tbc\n", "\n\t\x7b\n", "\t\x7d;\n", "\x7d\n", "\n====================\n",
        "\tt\n", "====================\n", "\nd"].flatMap String.toList :=
  ⟨by decide, (render_eq_flatMap_text (by decide)).trans (by decide)⟩

end EnumStrings
