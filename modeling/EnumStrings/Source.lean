import EnumStrings.Text

/-!
# Sources

A source is a text in which every stretch has a place: its bytes. It is cut into lines, and blank lines divide it into
groups of lines.
-/

namespace EnumStrings

/-! ## Spans

A span names a stretch of a source text by the bytes where it starts and stops. `Span.cut?` reads the stretch back;
it succeeds only if both ends fall between two characters, and it recovers what stands between a known beginning and a
known end (`Span.cut?_append`).
-/

/-- The bytes from `start` up to `stop`, `stop` not included. -/
structure Span where
  start : Nat
  stop : Nat
deriving DecidableEq, Repr

/-- What follows the first `n` bytes of a text, if these end between two characters. -/
def dropBytes? (n : Nat) : Text → Option Text
  | [] => if n = 0 then some [] else none
  | c :: s =>
    if n = 0 then some (c :: s)
    else if c.utf8Size ≤ n then dropBytes? (n - c.utf8Size) s
    else none

/-- The first `n` bytes of a text, if these end between two characters. -/
def takeBytes? (n : Nat) : Text → Option Text
  | [] => if n = 0 then some [] else none
  | c :: s =>
    if n = 0 then some []
    else if c.utf8Size ≤ n then (takeBytes? (n - c.utf8Size) s).map (c :: ·)
    else none

theorem dropBytes?_append (s t : Text) : dropBytes? (byteLength s) (s ++ t) = some t := by
  induction s with
  | nil => cases t <;> simp [dropBytes?]
  | cons c s ih =>
    simp [dropBytes?, Nat.ne_of_gt c.utf8Size_pos, ih]

theorem takeBytes?_zero (s : Text) : takeBytes? 0 s = some [] := by
  cases s <;> rfl

/-- The bytes of the first character are taken together. -/
theorem takeBytes?_cons (c : Char) (n : Nat) (s : Text) :
    takeBytes? (c.utf8Size + n) (c :: s) = (takeBytes? n s).map (c :: ·) := by
  have hpos : c.utf8Size + n ≠ 0 := by
    have := c.utf8Size_pos
    omega
  rw [takeBytes?, if_neg hpos, if_pos (Nat.le_add_right _ _), Nat.add_sub_cancel_left]

theorem takeBytes?_append (s t : Text) : takeBytes? (byteLength s) (s ++ t) = some s := by
  induction s with
  | nil => exact takeBytes?_zero t
  | cons c s ih => rw [List.cons_append, byteLength_cons, takeBytes?_cons, ih, Option.map_some]

namespace Span

/-- The part of a source that a span covers, if both ends of the span fall between two characters. -/
def cut? (span : Span) (src : Text) : Option Text := do
  guard (span.start ≤ span.stop)
  takeBytes? (span.stop - span.start) (← dropBytes? span.start src)

/-- Nothing but the ends decides what a span covers, if they are in order. -/
theorem cut?_of_le {span : Span} {src : Text} (hle : span.start ≤ span.stop) :
    span.cut? src = (dropBytes? span.start src).bind (takeBytes? (span.stop - span.start)) := by
  have hguard : (guard (span.start ≤ span.stop) : Option Unit) = some () := if_pos hle
  rw [cut?, hguard]
  rfl

/-- The span of `s` in a source where the text `before` stands in front of it. -/
theorem cut?_append (before s after : Text) :
    cut? ⟨byteLength before, byteLength before + byteLength s⟩ (before ++ s ++ after) = some s := by
  have hle : byteLength before ≤ byteLength before + byteLength s := Nat.le_add_right _ _
  rw [cut?_of_le hle, List.append_assoc, dropBytes?_append, Option.bind_some, Nat.add_sub_cancel_left,
    takeBytes?_append]

end Span

/-! ## Excerpts of a source

Lines, the pieces of a list and the names of members are excerpts: texts that remember where in the source they start.
`Excerpt.place` lays texts out one after the other, each followed by its separator, and keeps the texts as they are
(`Excerpt.map_text_place`).
-/

/-- A text together with the byte of the source at which it starts. -/
structure Excerpt where
  text : Text
  start : Nat
deriving DecidableEq, Repr

namespace Excerpt

/-- The bytes of the source that the excerpt covers. -/
def span (e : Excerpt) : Span := ⟨e.start, e.start + byteLength e.text⟩

/-- Whether the excerpt holds nothing but white space. -/
def isBlank (e : Excerpt) : Bool := e.text.all EnumStrings.isBlank

/-- The given texts as excerpts from byte `start` on, where each text is followed by its separator. -/
def place (start : Nat) : List (Text × Text) → List Excerpt
  | [] => []
  | (text, separator) :: parts => ⟨text, start⟩ :: place (start + byteLength text + byteLength separator) parts

theorem map_text_place (start : Nat) (parts : List (Text × Text)) :
    (place start parts).map text = parts.map Prod.fst := by
  induction parts generalizing start with
  | nil => rfl
  | cons p parts ih => simp [place, ih]

/-- The pieces of an excerpt between the commas in it. -/
def pieces (e : Excerpt) : List Excerpt := place e.start ((e.text.splitOn ',').map (·, [',']))

end Excerpt

/-! ## Lines of a source

A line ends with a line feed, a carriage return, or both in this order, and the last line may end with the source.
`terminatedLines` cuts a source into its lines and their terminators without losing a character
(`flatten_terminatedLines`); `lines` keeps the texts and their places.
-/

/-- Whether a character ends a line. -/
def isTerminator (c : Char) : Bool := c == '\n' || c == '\r'

/-- The terminator at the front of a text that starts with one, and what follows it. -/
def splitTerminator : Text → Text × Text
  | '\r' :: '\n' :: s => (['\r', '\n'], s)
  | c :: s => ([c], s)
  | [] => ([], [])

theorem splitTerminator_append (s : Text) : (splitTerminator s).1 ++ (splitTerminator s).2 = s := by
  fun_cases splitTerminator s <;> rfl

theorem length_splitTerminator_lt {s : Text} (h : s ≠ []) : (splitTerminator s).2.length < s.length := by
  fun_cases splitTerminator s with
  | case1 r => simp only [List.length_cons]; omega
  | case2 c r => simp
  | case3 => exact absurd rfl h

/-- The text of the first line, without its terminator. -/
def firstLine (s : Text) : Text := s.takeWhile (!isTerminator ·)

/-- What follows the text of the first line: its terminator and all other lines. -/
def afterFirstLine (s : Text) : Text := s.dropWhile (!isTerminator ·)

theorem firstLine_append_afterFirstLine (s : Text) : firstLine s ++ afterFirstLine s = s :=
  List.takeWhile_append_dropWhile

/-- The lines of a source, each with the terminator that ends it; the last terminator may be empty. -/
def terminatedLines : Text → List (Text × Text)
  | [] => []
  | c :: s =>
    (firstLine (c :: s), (splitTerminator (afterFirstLine (c :: s))).1) ::
      terminatedLines (splitTerminator (afterFirstLine (c :: s))).2
termination_by s => s.length
decreasing_by
  have hle : (afterFirstLine (c :: s)).length ≤ (c :: s).length := (List.dropWhile_suffix _).length_le
  by_cases h : afterFirstLine (c :: s) = []
  · simp [h, splitTerminator]
  · exact Nat.lt_of_lt_of_le (length_splitTerminator_lt h) hle

/-- Lines and terminators, put together again, are the source. -/
theorem flatten_terminatedLines (s : Text) : (terminatedLines s).flatMap (fun p => p.1 ++ p.2) = s := by
  fun_induction terminatedLines s with
  | case1 => rfl
  | case2 c s ih =>
    rw [List.flatMap_cons, ih, List.append_assoc, splitTerminator_append, firstLine_append_afterFirstLine]

/-- The lines of a source, without their terminators. -/
def lines (src : Text) : List Excerpt := Excerpt.place 0 (terminatedLines src)

/-! ## Groups of lines

Blank lines divide a source into groups, the longest runs of lines that are not blank. A group has at least one line,
by its type: the one that should declare an enum. No line but the blank ones is lost (`flatMap_lines_ofLines`).
-/

/-- A run of lines: the first should declare an enum, the others hold its members. -/
structure Group where
  declaration : Excerpt
  body : List Excerpt
deriving DecidableEq, Repr

namespace Group

/-- All lines of the group. -/
def lines (g : Group) : List Excerpt := g.declaration :: g.body

/-- The bytes from the start of the first line to the end of the last. -/
def span (g : Group) : Span := ⟨g.declaration.start, (g.body.getLast?.getD g.declaration).span.stop⟩

/-- The longest runs of lines that are not blank. -/
def ofLines : List Excerpt → List Group
  | [] => []
  | l :: ls =>
    if l.isBlank then ofLines ls
    else ⟨l, ls.takeWhile (!·.isBlank)⟩ :: ofLines (ls.dropWhile (!·.isBlank))
termination_by ls => ls.length
decreasing_by
  · simp
  · exact Nat.lt_succ_of_le (List.dropWhile_suffix _).length_le

theorem flatMap_lines_ofLines (ls : List Excerpt) : (ofLines ls).flatMap lines = ls.filter (!·.isBlank) := by
  fun_induction ofLines ls with
  | case1 => rfl
  | case2 l ls h ih => simp [h, ih]
  | case3 l ls h ih =>
    have hrun : (ls.takeWhile (!·.isBlank)).filter (!·.isBlank) = ls.takeWhile (!·.isBlank) :=
      List.filter_eq_self.mpr (List.all_eq_true.mp List.all_takeWhile)
    rw [List.flatMap_cons, ih, List.filter_cons_of_pos (by simp [h]), lines, List.cons_append]
    conv => rhs; rw [← List.takeWhile_append_dropWhile (p := (!·.isBlank)) (l := ls), List.filter_append, hrun]

end Group

/-- The groups of a source. -/
def groups (src : Text) : List Group := Group.ofLines (lines src)

end EnumStrings
