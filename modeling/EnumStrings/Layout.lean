import EnumStrings.Text

/-!
# Layout of generated text

Generated text is described by steps: lines, blocks in braces, banners, and gaps between them. Each step stands for a
few instructions (`Step.instructions`), and a `Layout` carries them out, one after the other: it indents lines with
tabs and inserts empty lines. An empty line is never written at once. It is wanted, and appears when the next line
starts; it is dropped at the start of the text, after an opening brace and before a closing one.
-/

namespace EnumStrings

/-- What is known about the empty line in front of the next line. -/
inductive Gap where
  /-- Nobody has asked for it. -/
  | unasked
  /-- It is written when the next line starts. -/
  | wanted
  /-- It is not written, whoever asks. -/
  | barred
deriving DecidableEq, Repr

/-- What one instruction makes a layout do. -/
inductive Instruction where
  /-- End the line. -/
  | newline
  /-- Continue the line, or start one. -/
  | write (text : Text)
  /-- Indent the lines to come by one more tab. -/
  | indent
  /-- Indent the lines to come by one tab less. -/
  | outdent
  /-- Ask for an empty line before the next line. -/
  | wantGap
  /-- Allow no empty line before the next line. -/
  | barGap
deriving DecidableEq, Repr

/-- The state between two instructions. -/
structure Layout where
  /-- The number of tabs before a line. -/
  depth : Nat := 0
  /-- Whether a line has been started and not ended. -/
  midLine : Bool := false
  gap : Gap := .barred
deriving DecidableEq, Repr

namespace Layout

/-- What stands before a line that starts here: an empty line if one is wanted, and the tabs. -/
def lineStart (l : Layout) : Text :=
  (if l.gap = .wanted then ['\n'] else []) ++ List.replicate l.depth '\t'

/-- Carries out one instruction, and gives the text that it adds. -/
def perform (l : Layout) : Instruction → Text × Layout
  | .newline => (['\n'], { l with midLine := false })
  | .write text =>
    if l.midLine then (text, l) else (l.lineStart ++ text, { l with midLine := true, gap := .unasked })
  | .indent => ([], { l with depth := l.depth + 1 })
  | .outdent => ([], { l with depth := l.depth - 1 })
  | .wantGap => ([], if l.gap = .barred then l else { l with gap := .wanted })
  | .barGap => ([], { l with gap := .barred })

/-- Carries out instructions in turn, and gives the text that they add. -/
def run (l : Layout) : List Instruction → Text × Layout
  | [] => ([], l)
  | i :: is =>
    let (text, l) := l.perform i
    let (texts, l) := l.run is
    (text ++ texts, l)

theorem run_append (l : Layout) (is js : List Instruction) :
    l.run (is ++ js) = ((l.run is).1 ++ ((l.run is).2.run js).1, ((l.run is).2.run js).2) := by
  induction is generalizing l with
  | nil => rfl
  | cons i is ih => simp [run, ih]

end Layout

/-- A step in the description of a text. -/
inductive Step where
  /-- Ends the line. -/
  | newline
  /-- A part of a line. -/
  | write (text : Text)
  /-- A line, or the rest of one. -/
  | line (text : Text)
  /-- An opening brace on a line; what follows is indented. -/
  | openBlock
  /-- A closing brace with a text behind it. -/
  | closeBlock (suffix : Text)
  /-- A title between two rules, with gaps around it. -/
  | banner (title : Text)
  /-- An empty line, unless it stands at the edge of a block. -/
  | gap
deriving DecidableEq, Repr

/-- The rule above and below the title of a banner. -/
def bannerRule : Text := "====================".toList

namespace Step

/-- The instructions that a step stands for. -/
def instructions : Step → List Instruction
  | newline => [.newline]
  | write text => [.write text]
  | line text => [.write text, .newline]
  | openBlock => [.write ['{'], .newline, .indent, .barGap]
  | closeBlock suffix => [.outdent, .barGap, .write ['}'], .write suffix, .newline]
  | banner title =>
    [.wantGap, .write bannerRule, .newline, .write ('\t' :: title), .newline, .write bannerRule, .newline, .wantGap]
  | gap => [.wantGap]

end Step

/-- The text that steps describe. -/
def render (steps : List Step) : Text := (({} : Layout).run (steps.flatMap Step.instructions)).1

end EnumStrings
