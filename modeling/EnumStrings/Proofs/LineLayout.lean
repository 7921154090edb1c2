import EnumStrings.Layout

/-!
# The lines of generated text

Most steps write whole lines: a layout that stands at the start of a line does so again behind them, and `Step.next`
tells how. Who reads the text for its code does not care for indentation and empty lines (`codeLines`), and finds the
lines that the steps name, one after the other (`codeLines_render`).

A text of which every line is ended is made of its rows (`rows_ended`). A step that writes whole lines adds the rows of
its lines to a text, all of one depth, and perhaps an empty one in front of them (`Step.rows`), and the steps of a text
add their rows one after the other (`rows_render`).
-/

namespace EnumStrings

/-! ## Lines of code -/

/-- The text without the tabs in front of it. -/
def unindent (s : Text) : Text := s.dropWhile (· == '\t')

/-- The lines of a text without their indentation; a line that holds nothing else is left out. -/
def codeLines (s : Text) : List Text := ((s.splitOn '\n').map unindent).filter (· ≠ [])

theorem codeLines_append_newline (s t : Text) : codeLines (s ++ '\n' :: t) = codeLines s ++ codeLines t := by
  simp [codeLines, List.splitOn_append_cons_self]

theorem codeLines_newline (s : Text) : codeLines ('\n' :: s) = codeLines s :=
  codeLines_append_newline [] s

theorem codeLines_tab (s : Text) : codeLines ('\t' :: s) = codeLines s := by
  obtain ⟨first, others, h⟩ := List.exists_cons_of_ne_nil (List.splitOn_ne_nil '\n' s)
  have htab : ('\t' :: s).splitOn '\n' = ('\t' :: first) :: others := by
    rw [List.splitOn_cons_eq_if_modifyHead, if_neg (by decide), h, List.modifyHead_cons]
  rw [codeLines, codeLines, htab, h]
  rfl

theorem codeLines_indent (n : Nat) (s : Text) : codeLines (List.replicate n '\t' ++ s) = codeLines s := by
  induction n with
  | zero => rfl
  | succ n ih => rw [List.replicate_succ, List.cons_append, codeLines_tab, ih]

/-- A line that holds more than tabs is a line of code. -/
theorem codeLines_eq_singleton {s : Text} (hs : '\n' ∉ s) (hne : unindent s ≠ []) : codeLines s = [unindent s] := by
  simp [codeLines, List.splitOn_eq_singleton hs, hne]

/-- The beginning of a line, with the empty line in front of it, holds no code. -/
theorem codeLines_lineStart (l : Layout) (s : Text) : codeLines (l.lineStart ++ s) = codeLines s := by
  unfold Layout.lineStart
  split
  · rw [List.append_assoc, List.cons_append, codeLines_newline, List.nil_append, codeLines_indent]
  · rw [List.nil_append, codeLines_indent]

/-! ## Whole lines -/

namespace Step

/-- Whether a step writes whole lines only. -/
def isWhole : Step → Bool
  | newline | write _ => false
  | _ => true

/-- The texts of the lines that a step writes. -/
def lineTexts : Step → List Text
  | line text => [text]
  | openBlock => [['{']]
  | closeBlock suffix => ['}' :: suffix]
  | banner title => [bannerRule, '\t' :: title, bannerRule]
  | newline | write _ | gap => []

theorem flatMap_lineTexts_line {α : Type} (f : α → Text) (xs : List α) :
    (xs.map fun x => line (f x)).flatMap lineTexts = xs.map f := by
  induction xs with
  | nil => rfl
  | cons x xs ih => rw [List.map_cons, List.flatMap_cons, ih, List.map_cons]; rfl

/-- The layout behind a step that writes whole lines. -/
def next (l : Layout) : Step → Layout
  | line _ => { l with gap := .unasked }
  | openBlock => { l with depth := l.depth + 1, gap := .barred }
  | closeBlock _ => { l with depth := l.depth - 1, gap := .unasked }
  | banner _ => { l with gap := .wanted }
  | gap => if l.gap = .barred then l else { l with gap := .wanted }
  | newline | write _ => l

end Step

/-- The lines of code that steps name. -/
def codeOf (steps : List Step) : List Text := (steps.flatMap Step.lineTexts).flatMap codeLines

theorem codeOf_append (steps others : List Step) : codeOf (steps ++ others) = codeOf steps ++ codeOf others := by
  rw [codeOf, List.flatMap_append, List.flatMap_append, codeOf, codeOf]

namespace Layout

variable {l : Layout} {s : Step} {steps : List Step}

/-- A line of code is added by each line that is written. -/
theorem codeLines_line (l : Layout) (s t : Text) :
    codeLines (l.lineStart ++ (s ++ '\n' :: t)) = codeLines s ++ codeLines t := by
  rw [codeLines_lineStart, codeLines_append_newline]

theorem midLine_next (hl : l.midLine = false) (s : Step) : (s.next l).midLine = false := by
  cases s <;> simp only [Step.next]
  case gap => split <;> exact hl
  all_goals exact hl

/-- What a step that writes whole lines does to the layout. -/
theorem run_instructions (hl : l.midLine = false) (hs : s.isWhole = true) : (l.run s.instructions).2 = s.next l := by
  obtain ⟨depth, midLine, gap⟩ := l
  subst hl
  cases s with
  | newline => cases hs
  | write text => cases hs
  | line text => rfl
  | openBlock => rfl
  | closeBlock suffix => rfl
  | banner title => cases gap <;> rfl
  | gap => rfl

/-- What a step that writes whole lines adds to the code. -/
theorem codeLines_run (hl : l.midLine = false) (hs : s.isWhole = true) (t : Text) :
    codeLines ((l.run s.instructions).1 ++ t) = s.lineTexts.flatMap codeLines ++ codeLines t := by
  obtain ⟨depth, midLine, gap⟩ := l
  subst hl
  cases s with
  | newline => cases hs
  | write text => cases hs
  | line text =>
    have h : (run ⟨depth, false, gap⟩ (Step.line text).instructions).1 ++ t =
        lineStart ⟨depth, false, gap⟩ ++ (text ++ '\n' :: t) := by simp [Step.instructions, run, perform]
    rw [h, codeLines_line]
    simp [Step.lineTexts]
  | openBlock =>
    have h : (run ⟨depth, false, gap⟩ Step.openBlock.instructions).1 ++ t =
        lineStart ⟨depth, false, gap⟩ ++ (['{'] ++ '\n' :: t) := by simp [Step.instructions, run, perform]
    rw [h, codeLines_line]
    simp [Step.lineTexts]
  | closeBlock suffix =>
    have h : (run ⟨depth, false, gap⟩ (Step.closeBlock suffix).instructions).1 ++ t =
        lineStart ⟨depth - 1, false, .barred⟩ ++ (('}' :: suffix) ++ '\n' :: t) := by
      simp [Step.instructions, run, perform]
    rw [h, codeLines_line]
    simp [Step.lineTexts]
  | banner title =>
    have h : (run ⟨depth, false, gap⟩ (Step.banner title).instructions).1 ++ t =
        lineStart ⟨depth, false, if gap = .barred then .barred else .wanted⟩ ++ (bannerRule ++ '\n' ::
          (lineStart ⟨depth, false, .unasked⟩ ++ (('\t' :: title) ++ '\n' ::
            (lineStart ⟨depth, false, .unasked⟩ ++ (bannerRule ++ '\n' :: t))))) := by
      cases gap <;> simp [Step.instructions, run, perform]
    rw [h, codeLines_line, codeLines_line, codeLines_line]
    simp [Step.lineTexts]
  | gap => rfl

/-- Steps that write whole lines add the lines that they name to the code. -/
theorem codeLines_run_flatMap (hl : l.midLine = false) (hs : ∀ s ∈ steps, s.isWhole = true) :
    codeLines (l.run (steps.flatMap Step.instructions)).1 = codeOf steps := by
  induction steps generalizing l with
  | nil => rfl
  | cons s steps ih =>
    obtain ⟨hwhole, hothers⟩ := List.forall_mem_cons.mp hs
    have hnext : (l.run s.instructions).2.midLine = false := by
      rw [run_instructions hl hwhole]
      exact midLine_next hl s
    rw [List.flatMap_cons, run_append, codeLines_run hl hwhole, ih hnext hothers]
    simp [codeOf]

/-- Steps that write whole lines change the layout one after the other. -/
theorem run_flatMap (hl : l.midLine = false) (hs : ∀ s ∈ steps, s.isWhole = true) :
    (l.run (steps.flatMap Step.instructions)).2 = steps.foldl Step.next l := by
  induction steps generalizing l with
  | nil => rfl
  | cons s steps ih =>
    obtain ⟨hwhole, hothers⟩ := List.forall_mem_cons.mp hs
    rw [List.flatMap_cons, run_append, run_instructions hl hwhole, ih (midLine_next hl s) hothers, List.foldl_cons]

/-- Lines change nothing but whether an empty line is wanted. -/
theorem foldl_next_line {α : Type} (f : α → Text) (xs : List α) (l : Layout) :
    (xs.map fun x => Step.line (f x)).foldl Step.next l = { l with gap := if xs = [] then l.gap else .unasked } := by
  induction xs generalizing l with
  | nil => rfl
  | cons x xs ih =>
    rw [List.map_cons, List.foldl_cons, ih, if_neg (List.cons_ne_nil x xs)]
    split
    · rfl
    · rfl

/-- A banner that starts a text starts with an empty line elsewhere. -/
theorem run_banner (title : Text) (steps : List Step) :
    (run { gap := .unasked } ((.banner title :: steps).flatMap Step.instructions)).1 =
      '\n' :: (run {} ((.banner title :: steps).flatMap Step.instructions)).1 := by
  simp [Step.instructions, run, perform, lineStart]

theorem run_banner_ne_nil (title : Text) (steps : List Step) :
    (run {} ((.banner title :: steps).flatMap Step.instructions)).1 ≠ [] := by
  have hrule : bannerRule ≠ [] := by decide
  simp [Step.instructions, run, perform, lineStart, hrule]

end Layout

/-- The code of a text is what its steps name, line by line. -/
theorem codeLines_render {steps : List Step} (hs : ∀ s ∈ steps, s.isWhole = true) :
    codeLines (render steps) = codeOf steps :=
  Layout.codeLines_run_flatMap rfl hs

/-! ## Rows -/

/-- The rows of a text, all but what stands behind its last line feed. -/
def rows (s : Text) : List Text := (s.splitOn '\n').dropLast

/-- Rows with a line feed behind each. -/
def ended (rs : List Text) : Text := rs.flatMap (· ++ ['\n'])

theorem ended_append (rs qs : List Text) : ended (rs ++ qs) = ended rs ++ ended qs := List.flatMap_append

/-- Ended rows are the rows of their text. -/
theorem rows_ended {rs : List Text} (h : ∀ r ∈ rs, '\n' ∉ r) : rows (ended rs) = rs := by
  induction rs with
  | nil => rfl
  | cons r rs ih =>
    obtain ⟨hr, hrs⟩ := List.forall_mem_cons.mp h
    rw [ended, List.flatMap_cons, ← ended, List.append_assoc, List.singleton_append, rows,
      List.splitOn_append_cons_self_of_not_mem hr, List.dropLast_cons_of_ne_nil (List.splitOn_ne_nil _ _), ← rows,
      ih hrs]

namespace Step

/-- Whether a step starts with an empty row. -/
def isSpaced (l : Layout) : Step → Bool
  | line _ | openBlock => l.gap = .wanted
  | banner _ => l.gap ≠ .barred
  | newline | write _ | closeBlock _ | gap => false

/-- The depth of the lines that a step writes. -/
def rowDepth (l : Layout) : Step → Nat
  | closeBlock _ => l.depth - 1
  | _ => l.depth

/-- The rows that a step writes. -/
def rows (l : Layout) (s : Step) : List Text :=
  (if s.isSpaced l then [[]] else []) ++ s.lineTexts.map (List.replicate (s.rowDepth l) '\t' ++ ·)

end Step

namespace Layout

variable {l : Layout} {s : Step} {steps : List Step} {row : Text}

/-- The rows that steps write. -/
def rows (l : Layout) : List Step → List Text
  | [] => []
  | s :: steps => s.rows l ++ rows (s.next l) steps

theorem rows_append (l : Layout) (steps others : List Step) :
    l.rows (steps ++ others) = l.rows steps ++ (steps.foldl Step.next l).rows others := by
  induction steps generalizing l with
  | nil => rfl
  | cons s steps ih => rw [List.cons_append, rows, ih, rows, List.foldl_cons, List.append_assoc]

/-- A step that writes whole lines adds its rows. -/
theorem run_eq_ended (hl : l.midLine = false) (hs : s.isWhole = true) :
    (l.run s.instructions).1 = ended (s.rows l) := by
  obtain ⟨depth, midLine, gap⟩ := l
  subst hl
  cases s with
  | newline => cases hs
  | write text => cases hs
  | gap => rfl
  | line text | openBlock | closeBlock suffix | banner title =>
    cases gap <;> simp [Step.instructions, run, perform, lineStart, Step.rows, Step.isSpaced, Step.rowDepth,
      Step.lineTexts, ended]

/-- Steps that write whole lines add their rows one after the other. -/
theorem run_flatMap_eq_ended (hl : l.midLine = false) (hs : ∀ s ∈ steps, s.isWhole = true) :
    (l.run (steps.flatMap Step.instructions)).1 = ended (l.rows steps) := by
  induction steps generalizing l with
  | nil => rfl
  | cons s steps ih =>
    obtain ⟨hwhole, hothers⟩ := List.forall_mem_cons.mp hs
    rw [List.flatMap_cons, run_append, run_eq_ended hl hwhole, run_instructions hl hwhole,
      ih (midLine_next hl s) hothers, rows, ended_append]

/-- A row is empty, or a line behind some tabs. -/
theorem mem_rows (h : row ∈ l.rows steps) :
    row = [] ∨ ∃ t ∈ steps.flatMap Step.lineTexts, ∃ n, row = List.replicate n '\t' ++ t := by
  induction steps generalizing l with
  | nil => cases h
  | cons s steps ih =>
    rw [List.flatMap_cons]
    rcases List.mem_append.mp h with h | h
    · rcases List.mem_append.mp h with h | h
      · split at h
        · exact Or.inl (List.mem_singleton.mp h)
        · cases h
      · obtain ⟨t, ht, rfl⟩ := List.mem_map.mp h
        exact Or.inr ⟨t, List.mem_append_left _ ht, _, rfl⟩
    · rcases ih h with rfl | ⟨t, ht, hrow⟩
      · exact Or.inl rfl
      · exact Or.inr ⟨t, List.mem_append_right _ ht, hrow⟩

/-- No line ends within a row, if none ends within a line of a step. -/
theorem notMem_rows (h : ∀ t ∈ steps.flatMap Step.lineTexts, '\n' ∉ t) : ∀ row ∈ l.rows steps, '\n' ∉ row := by
  intro row hrow
  rcases mem_rows hrow with rfl | ⟨t, ht, n, rfl⟩
  · exact List.not_mem_nil
  · simp [h t ht]

end Layout

/-- The text that steps describe is made of their rows. -/
theorem render_eq_ended {steps : List Step} (hs : ∀ s ∈ steps, s.isWhole = true) :
    render steps = ended (({} : Layout).rows steps) := Layout.run_flatMap_eq_ended rfl hs

theorem rows_render {steps : List Step} (hs : ∀ s ∈ steps, s.isWhole = true)
    (h : ∀ t ∈ steps.flatMap Step.lineTexts, '\n' ∉ t) : rows (render steps) = ({} : Layout).rows steps := by
  rw [render_eq_ended hs, rows_ended (Layout.notMem_rows h)]

end EnumStrings
