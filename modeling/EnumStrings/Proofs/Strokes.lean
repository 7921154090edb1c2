import Mathlib.Data.List.Basic
import Mathlib.Data.List.Induction
import EnumStrings.Layout

/-!
# Strokes and the lines that they start

A line may be made of several parts, and a brace or a gap may be asked for while a line is in progress. To say what
comes of it, steps are taken apart into strokes (`Step.strokes`). A stroke that writes starts a line if none is in
progress, and `starts` lists the lines in their order, each with the strokes before it and behind it.

All that a layout knows is told by the strokes so far: whether a line is in progress (`midLine_behind`), how far lines
are indented (`depth_behind`), and what becomes of the empty line in front of the next line (`gap_behind`). This last
hangs on the line that was started last: an opening brace that starts it, or any brace behind that, bars an empty line.
-/

namespace EnumStrings

/-- A part of a step: what is done to a line, or to what stands in front of the next one. -/
inductive Stroke where
  /-- Ends the line. -/
  | newline
  /-- Continues the line, or starts one. -/
  | write (text : Text)
  /-- An opening brace, which ends the line; what follows is indented. -/
  | opening
  /-- A closing brace with a text behind it, which ends the line. -/
  | closing (suffix : Text)
  /-- Asks for an empty line before the next line. -/
  | asking
deriving DecidableEq, Repr

namespace Stroke

/-- The instructions that a stroke stands for. -/
@[simp] def instructions : Stroke → List Instruction
  | newline => [.newline]
  | write text => [.write text]
  | opening => [.write ['{'], .newline, .indent, .barGap]
  | closing suffix => [.outdent, .barGap, .write ['}'], .write suffix, .newline]
  | asking => [.wantGap]

/-- What a stroke puts on a line. -/
@[simp] def text : Stroke → Text
  | write text => text
  | opening => ['{']
  | closing suffix => '}' :: suffix
  | newline | asking => []

/-- Whether a stroke puts something on a line, be it the empty text. -/
@[simp] def writes : Stroke → Bool
  | write _ | opening | closing _ => true
  | newline | asking => false

@[simp] def isOpening : Stroke → Bool
  | opening => true
  | newline | write _ | closing _ | asking => false

@[simp] def isClosing : Stroke → Bool
  | closing _ => true
  | newline | write _ | opening | asking => false

def isBrace (s : Stroke) : Bool := s.isOpening || s.isClosing

/-- Whether a line is in progress behind a stroke, given whether one is in front of it. -/
@[simp] def leavesLine (mid : Bool) : Stroke → Bool
  | write _ => true
  | asking => mid
  | newline | opening | closing _ => false

/-- How far lines are indented behind a stroke: a closing brace takes one tab away if there is one. -/
def leavesDepth (depth : Nat) : Stroke → Nat
  | opening => depth + 1
  | closing _ => depth - 1
  | newline | write _ | asking => depth

/-- How far a line is indented that a stroke starts: a closing brace stands as far out as what comes behind it. -/
@[simp] def startDepth (depth : Nat) : Stroke → Nat
  | closing _ => depth - 1
  | newline | write _ | opening | asking => depth

/-- The line feed behind a stroke that ends a line. -/
@[simp] def lineEnd : Stroke → Text
  | newline | opening | closing _ => ['\n']
  | write _ | asking => []

end Stroke

/-- The strokes that a step is made of. -/
def Step.strokes : Step → List Stroke
  | newline => [.newline]
  | write text => [.write text]
  | line text => [.write text, .newline]
  | openBlock => [.opening]
  | closeBlock suffix => [.closing suffix]
  | banner title =>
    [.asking, .write bannerRule, .newline, .write ('\t' :: title), .newline, .write bannerRule, .newline, .asking]
  | gap => [.asking]

/-- The strokes of all steps. -/
def strokesOf (steps : List Step) : List Stroke := steps.flatMap Step.strokes

/-- Carries out strokes in turn, and gives the text that they add. -/
def Layout.draw (l : Layout) (strokes : List Stroke) : Text × Layout := l.run (strokes.flatMap Stroke.instructions)

/-- The text that has been written when the strokes are done. -/
def drawn (strokes : List Stroke) : Text := (({} : Layout).draw strokes).1

/-- The layout when the strokes are done. -/
def behind (strokes : List Stroke) : Layout := (({} : Layout).draw strokes).2

/-- Whether a line is in progress when the strokes are done. -/
def inProgress (strokes : List Stroke) : Bool := strokes.foldl Stroke.leavesLine false

/-- How far lines are indented when the strokes are done. -/
def depthBehind (strokes : List Stroke) : Nat := strokes.foldl Stroke.leavesDepth 0

/-- Whether a stroke starts a line. -/
def startsLine (before : List Stroke) (s : Stroke) : Bool := s.writes && !inProgress before

theorem startsLine_eq_true_iff {before : List Stroke} {s : Stroke} :
    startsLine before s = true ↔ s.writes = true ∧ inProgress before = false := by
  rw [startsLine, Bool.and_eq_true, Bool.not_eq_true']

theorem startsLine_eq_false_iff {before : List Stroke} {s : Stroke} :
    startsLine before s = false ↔ (s.writes = true → inProgress before = true) := by
  simp [startsLine]

/-- A line at the moment when it is started. -/
structure Start where
  before : List Stroke
  /-- The stroke that starts the line. -/
  stroke : Stroke
  after : List Stroke
deriving DecidableEq

/-- The line with more strokes at the end. -/
def Start.extend (p : Start) (more : List Stroke) : Start := { p with after := p.after ++ more }

/-- The lines that strokes start, in their order, when others have been done before. -/
def starts (before : List Stroke) : List Stroke → List Start
  | [] => []
  | s :: after => (if startsLine before s then [⟨before, s, after⟩] else []) ++ starts (before ++ [s]) after

/-- Whether a brace bars the empty line in front of the next line, if the line `p` was the last to be started. -/
def Start.isBarred (p : Start) : Bool := p.stroke.isOpening || p.after.any Stroke.isBrace

/-- What becomes of the empty line in front of the next line, if the line `p` was the last to be started. -/
def Start.gap (p : Start) : Gap :=
  if p.isBarred then .barred else if .asking ∈ p.after then .wanted else .unasked

/-! ## Strokes make up steps -/

theorem Step.flatMap_instructions_strokes (s : Step) : s.strokes.flatMap Stroke.instructions = s.instructions := by
  cases s <;> rfl

theorem Layout.draw_append (l : Layout) (strokes others : List Stroke) :
    l.draw (strokes ++ others) =
      ((l.draw strokes).1 ++ ((l.draw strokes).2.draw others).1, ((l.draw strokes).2.draw others).2) := by
  rw [draw, List.flatMap_append, run_append]
  rfl

/-- The text that steps describe is what their strokes write. -/
theorem render_eq_drawn (steps : List Step) : render steps = drawn (strokesOf steps) := by
  rw [render, drawn, Layout.draw, strokesOf, List.flatMap_assoc]
  simp only [Step.flatMap_instructions_strokes]

theorem behind_append (before strokes : List Stroke) :
    behind (before ++ strokes) = ((behind before).draw strokes).2 := by
  rw [behind, Layout.draw_append]
  rfl

/-! ## What the strokes so far tell -/

@[simp] theorem inProgress_concat (before : List Stroke) (s : Stroke) :
    inProgress (before ++ [s]) = s.leavesLine (inProgress before) := by
  rw [inProgress, List.foldl_append]
  rfl

@[simp] theorem depthBehind_concat (before : List Stroke) (s : Stroke) :
    depthBehind (before ++ [s]) = s.leavesDepth (depthBehind before) := by
  rw [depthBehind, List.foldl_append]
  rfl

/-- A layout knows whether a line is in progress. -/
theorem midLine_behind (strokes : List Stroke) : (behind strokes).midLine = inProgress strokes := by
  induction strokes using List.reverseRecOn with
  | nil => rfl
  | append_singleton before s ih =>
    rw [behind_append, inProgress_concat, ← ih]
    obtain ⟨depth, mid, gap⟩ := behind before
    cases s with
    | asking => cases gap <;> rfl
    | _ => cases mid <;> rfl

/-- A layout knows how far lines are indented. -/
theorem depth_behind (strokes : List Stroke) : (behind strokes).depth = depthBehind strokes := by
  induction strokes using List.reverseRecOn with
  | nil => rfl
  | append_singleton before s ih =>
    rw [behind_append, depthBehind_concat, ← ih]
    obtain ⟨depth, mid, gap⟩ := behind before
    cases s with
    | asking => cases gap <;> rfl
    | _ => cases mid <;> rfl

/-- A stroke that starts a line writes the empty line that is wanted, unless it is a closing brace, and the tabs. -/
theorem draw_of_startsLine {before : List Stroke} {s : Stroke} (h : startsLine before s = true) :
    ((behind before).draw [s]).1 = (if (behind before).gap = .wanted ∧ s.isClosing = false then ['\n'] else []) ++
      (List.replicate (s.startDepth (depthBehind before)) '\t' ++ (s.text ++ s.lineEnd)) := by
  obtain ⟨hwrites, hmid⟩ := startsLine_eq_true_iff.mp h
  rw [← midLine_behind] at hmid
  rw [← depth_behind]
  generalize behind before = l at hmid ⊢
  obtain ⟨depth, mid, gap⟩ := l
  subst hmid
  cases s with
  | newline | asking => cases hwrites
  | write text | opening | closing suffix =>
    simp [Layout.draw, Layout.run, Layout.perform, Layout.lineStart]

/-! ## The lines that are started -/

section Starts

variable {before strokes others : List Stroke} {s : Stroke} {p : Start}

theorem starts_append (before strokes others : List Stroke) : starts before (strokes ++ others) =
    (starts before strokes).map (·.extend others) ++ starts (before ++ strokes) others := by
  induction strokes generalizing before with
  | nil => simp [starts]
  | cons s strokes ih =>
    rw [List.cons_append, starts, ih, starts, List.map_append, List.append_assoc, List.append_cons before s strokes]
    split <;> simp [Start.extend]

theorem starts_append_eq_nil_iff :
    starts before (strokes ++ others) = [] ↔ starts before strokes = [] ∧ starts (before ++ strokes) others = [] := by
  rw [starts_append, List.append_eq_nil_iff, List.map_eq_nil_iff]

theorem starts_cons_eq_nil_iff :
    starts before (s :: strokes) = [] ↔ startsLine before s = false ∧ starts (before ++ [s]) strokes = [] := by
  rw [starts, List.append_eq_nil_iff]
  simp

/-- What is known of the line that is started last. -/
theorem of_getLast?_starts (h : (starts before strokes).getLast? = some p) :
    before ++ strokes = p.before ++ p.stroke :: p.after ∧ startsLine p.before p.stroke = true ∧
      starts (p.before ++ [p.stroke]) p.after = [] := by
  induction strokes generalizing before with
  | nil => cases h
  | cons s strokes ih =>
    rw [starts] at h
    by_cases hlater : starts (before ++ [s]) strokes = []
    · rw [hlater, List.append_nil] at h
      split at h
      · rename_i hs
        obtain rfl := Option.some.inj h
        exact ⟨rfl, hs, hlater⟩
      · cases h
    · rw [List.getLast?_append_of_ne_nil _ hlater] at h
      rw [List.append_cons before s strokes]
      exact ih h

/-- The first line that is started, if one is: what stands in front of it starts none. -/
theorem exists_start (h : starts before strokes ≠ []) : ∃ between s after, strokes = between ++ s :: after ∧
    starts before between = [] ∧ startsLine (before ++ between) s = true := by
  induction strokes generalizing before with
  | nil => exact absurd rfl h
  | cons s strokes ih =>
    by_cases hs : startsLine before s = true
    · exact ⟨[], s, strokes, rfl, rfl, by rwa [List.append_nil]⟩
    · rw [starts, if_neg hs, List.nil_append] at h
      obtain ⟨between, t, after, rfl, hnone, ht⟩ := ih h
      refine ⟨s :: between, t, after, rfl, ?_, ?_⟩
      · exact starts_cons_eq_nil_iff.mpr ⟨Bool.eq_false_iff.mpr hs, hnone⟩
      · rwa [List.append_cons before s between]

end Starts

/-! ## Whether an empty line is due -/

/-- What becomes of the empty line in front of the next line, behind a stroke. -/
def Stroke.leavesGap (mid : Bool) (gap : Gap) : Stroke → Gap
  | newline => gap
  | write _ => if mid then gap else .unasked
  | opening => .barred
  | closing _ => if mid then .barred else .unasked
  | asking => if gap = .barred then .barred else .wanted

section Gaps

variable {before : List Stroke} {s : Stroke}

theorem gap_behind_concat (before : List Stroke) (s : Stroke) :
    (behind (before ++ [s])).gap = s.leavesGap (inProgress before) (behind before).gap := by
  rw [behind_append, ← midLine_behind]
  obtain ⟨depth, mid, gap⟩ := behind before
  cases s with
  | asking => cases gap <;> rfl
  | _ => cases mid <;> rfl

/-- A stroke that starts a line decides by itself. -/
theorem gap_of_startsLine (h : startsLine before s = true) (gap : Gap) :
    s.leavesGap (inProgress before) gap = (⟨before, s, []⟩ : Start).gap := by
  obtain ⟨hwrites, hmid⟩ := startsLine_eq_true_iff.mp h
  rw [hmid]
  cases s with
  | newline | asking => cases hwrites
  | write text | opening | closing suffix => rfl

theorem Start.isBarred_extend (p : Start) (s : Stroke) : (p.extend [s]).isBarred = (p.isBarred || s.isBrace) := by
  simp [isBarred, extend, Bool.or_assoc]

/-- Any other stroke leaves an empty line barred. -/
theorem leavesGap_barred (h : startsLine before s = false) : s.leavesGap (inProgress before) .barred = .barred := by
  have hmid := startsLine_eq_false_iff.mp h
  cases s with
  | newline | opening | asking => rfl
  | write text | closing suffix => simp [Stroke.leavesGap, hmid rfl]

/-- It changes what the line that was started last decides. -/
theorem gap_of_not_startsLine (h : startsLine before s = false) (p : Start) :
    s.leavesGap (inProgress before) p.gap = (p.extend [s]).gap := by
  have hmid := startsLine_eq_false_iff.mp h
  rw [Start.gap, Start.gap, Start.isBarred_extend]
  cases s with
  | newline => simp [Stroke.leavesGap, Stroke.isBrace, Start.extend]
  | write text => simp [Stroke.leavesGap, Stroke.isBrace, Start.extend, hmid rfl]
  | opening => simp [Stroke.leavesGap, Stroke.isBrace]
  | closing suffix => simp [Stroke.leavesGap, Stroke.isBrace, hmid rfl]
  | asking =>
    cases p.isBarred with
    | true => rfl
    | false =>
      have hasked : ∀ b : Prop, [Decidable b] → (if b then Gap.wanted else .unasked) ≠ .barred := by
        intro b _
        split <;> decide
      simp [Stroke.leavesGap, Stroke.isBrace, Start.extend, hasked]

/-- What becomes of an empty line is told by the strokes: it is barred at the front of the text, and else hangs on the
line started last. -/
theorem gap_behind (strokes : List Stroke) :
    (behind strokes).gap = ((starts [] strokes).getLast?.map Start.gap).getD .barred := by
  induction strokes using List.reverseRecOn with
  | nil => rfl
  | append_singleton before s ih =>
    rw [gap_behind_concat, starts_append, List.nil_append, starts, starts, List.append_nil, ih]
    cases hs : startsLine before s with
    | true => rw [if_pos rfl, List.getLast?_concat, gap_of_startsLine hs, Option.map_some, Option.getD_some]
    | false =>
      rw [if_neg (by decide), List.append_nil, List.getLast?_map]
      cases (starts [] before).getLast? with
      | none => exact leavesGap_barred hs
      | some p => exact gap_of_not_startsLine hs p

end Gaps

end EnumStrings
