import EnumStrings.Text

/-!
# What is left of a message without a terminal

Messages are written piece by piece, for a terminal. The pieces are collected in blocks (`blocks`), and where no
terminal reads them, the blocks are stripped of what a terminal would obey instead of showing it (`withoutControls`).
-/

namespace EnumStrings

/-! ## Blocks

A text that is written piece by piece is collected and handed on in blocks. No piece is cut: a piece joins the block
that is being filled if there is room for all of it, and starts the next block if there is not. The blocks hold the
pieces in their order, and nothing else (`flatten_fill`).
-/

/-- What a block of at most `size` bytes, `used` of them so far, gets of the pieces, and the blocks behind it. -/
def fill (size used : Nat) : List Text → Text × List Text
  | [] => ([], [])
  | piece :: pieces =>
    if used + byteLength piece ≤ size then
      let (block, later) := fill size (used + byteLength piece) pieces
      (piece ++ block, later)
    else
      let (block, later) := fill size (byteLength piece) pieces
      ([], (piece ++ block) :: later)

/-- The blocks in which pieces are handed on, each of at most `size` bytes where the pieces allow it. -/
def blocks (size : Nat) (pieces : List Text) : List Text :=
  let (block, later) := fill size 0 pieces
  block :: later

/-- Nothing gets lost, and nothing is put in between. -/
theorem flatten_fill (size used : Nat) (pieces : List Text) :
    (fill size used pieces).1 ++ (fill size used pieces).2.flatten = pieces.flatten := by
  induction pieces generalizing used with
  | nil => rfl
  | cons piece pieces ih => rw [fill]; split <;> simp [ih]

/-! ## Control sequences

A terminal obeys some characters instead of showing them: the control characters of ASCII, and sequences of characters
that start with an escape character. `withoutControls` drops them from a text and keeps all else, white space included.
The text comes in blocks, since a sequence that white space has interrupted goes on where a block ends.

Behind a control sequence that has come to its end, all that is shown is kept, up to the next control character
(`withoutControls_blocks_cons`).
-/

/-- Whether a character is a control character of ASCII and white space. -/
def isLayoutControl (c : Char) : Bool := c == '\t' || c == '\n' || c == '\x0c' || c == '\r'

/-- Whether a character is shown outside control sequences, or moves the place where the next one is shown. -/
def isShown (c : Char) : Bool := isLayoutControl c || (decide (' ' ≤ c) && c != '\x7f')

/-- The part of a control sequence that comes next. -/
inductive ControlSequence where
  /-- No part: there is no control sequence. -/
  | absent
  /-- The character behind an escape character, which tells the kind of the sequence. -/
  | kind
  /-- The rest of a short sequence: any number of characters from the space to the slash, and one more. -/
  | short
  /-- The rest of a sequence with parameters: anything up to a character from the at sign on. -/
  | parameters
  /-- The rest of a command to the operating system, up to a bell. -/
  | command
  /-- The first character of what tells the device how to read a string. -/
  | deviceHeader
  /-- The parameters there: digits, colons and semicolons. -/
  | deviceParameters
  /-- The characters from the space to the slash there. -/
  | deviceIntermediates
  /-- The rest of a string for the device, up to a byte 9C; here also what has a header of no known form. -/
  | deviceString
deriving DecidableEq, Repr

namespace ControlSequence

/-- What comes behind a character that is not shown. An escape character starts a sequence anywhere, the characters
cancel and substitute end one anywhere. -/
def next (q : ControlSequence) (c : Char) : ControlSequence :=
  if c = '\x1b' then kind
  else if c = '\x18' ∨ c = '\x1a' then absent
  else match q with
    | absent => absent
    | kind =>
      if c < ' ' ∨ '\x7f' ≤ c then kind
      else if c < '0' then short
      else match c with
        | '[' => parameters
        | ']' => command
        | 'P' => deviceHeader
        | 'X' | '^' | '_' => deviceString
        | _ => absent
    | short => if c < '0' ∨ '\x7f' ≤ c then short else absent
    | parameters => if c < '@' ∨ '\x7f' ≤ c then parameters else absent
    | command => if c = '\x07' then absent else command
    | deviceHeader =>
      if c < ' ' ∨ '\x7f' ≤ c then deviceHeader
      else if c < '0' then deviceIntermediates
      else if c < '@' then deviceParameters
      else deviceString
    | deviceParameters =>
      if c < ' ' ∨ '\x7f' ≤ c then deviceParameters
      else if c < '0' then deviceIntermediates
      else if c < '<' then deviceParameters
      else deviceString
    | deviceIntermediates => if c < '0' ∨ '\x7f' ≤ c then deviceIntermediates else deviceString
    | deviceString => if (String.utf8EncodeChar c).contains 0x9C then absent else deviceString

/-- Whether a character is shown: within a control sequence white space alone is, in commands and strings nothing. -/
def shows : ControlSequence → Char → Bool
  | absent, c => isShown c
  | kind, c | short, c | parameters, c => isLayoutControl c
  | command, _ | deviceHeader, _ | deviceParameters, _ | deviceIntermediates, _ | deviceString, _ => false

/-- What a text shows behind the characters kept so far, the last one first, and what is kept then. White space
interrupts a sequence, which goes on at the next control character. -/
def strip (interrupted : Bool) (q : ControlSequence) (kept : Text) : Text → ControlSequence × Text
  | [] => (q, kept)
  | c :: s =>
    if (interrupted && isShown c) || q.shows c then
      strip true (if c.utf8Size = 1 then q else absent) (c :: kept) s
    else strip false (q.next c) kept s

/-- Outside control sequences it makes no difference whether white space has interrupted one. -/
theorem strip_absent (interrupted : Bool) (kept s : Text) :
    strip interrupted absent kept s = strip false absent kept s := by
  cases s with
  | nil => rfl
  | cons c s => cases hc : isShown c <;> simp [strip, shows, hc]

/-- A text behind one that ends outside control sequences is read as if it came first. -/
theorem strip_append (interrupted : Bool) (q : ControlSequence) (kept : Text) {s : Text} (t : Text)
    (h : (strip interrupted q kept s).1 = absent) :
    strip interrupted q kept (s ++ t) = strip false absent (strip interrupted q kept s).2 t := by
  induction s generalizing interrupted q kept with
  | nil =>
    obtain rfl : q = absent := h
    exact strip_absent interrupted kept t
  | cons c s ih =>
    rw [strip] at h
    rw [List.cons_append, strip, strip]
    split
    · rename_i hc
      rw [if_pos hc] at h
      exact ih _ _ _ h
    · rename_i hc
      rw [if_neg hc] at h
      exact ih _ _ _ h

/-- What had been kept stays. -/
theorem exists_strip_eq_append (interrupted : Bool) (q : ControlSequence) (kept s : Text) :
    ∃ t : Text, (strip interrupted q kept s).2 = t ++ kept := by
  induction s generalizing interrupted q kept with
  | nil => exact ⟨[], rfl⟩
  | cons c s ih =>
    rw [strip]
    split
    · obtain ⟨t, ht⟩ := ih true (if c.utf8Size = 1 then q else absent) (c :: kept)
      exact ⟨t ++ [c], by rw [ht, List.append_assoc]; rfl⟩
    · exact ih _ _ _

theorem strip_of_isShown (kept : Text) {s : Text} (h : ∀ c ∈ s, isShown c = true) :
    strip false absent kept s = (absent, s.reverse ++ kept) := by
  induction s generalizing kept with
  | nil => rfl
  | cons c s ih =>
    have hc := h c List.mem_cons_self
    have hs := ih (c :: kept) fun d hd => h d (List.mem_cons_of_mem c hd)
    simp [strip, strip_absent, shows, hc, hs]

/-- What blocks of text show, one after the other. A sequence that is interrupted in one block goes on in the next. -/
def stripBlocks (q : ControlSequence) (kept : Text) : List Text → Text
  | [] => kept.reverse
  | b :: bs =>
    let reached := strip false q kept b
    stripBlocks reached.1 reached.2 bs

theorem exists_stripBlocks_eq_append (q : ControlSequence) (kept : Text) (bs : List Text) :
    ∃ t : Text, stripBlocks q kept bs = kept.reverse ++ t := by
  induction bs generalizing q kept with
  | nil => exact ⟨[], (List.append_nil _).symm⟩
  | cons b bs ih =>
    obtain ⟨t, ht⟩ := exists_strip_eq_append false q kept b
    obtain ⟨u, hu⟩ := ih (strip false q kept b).1 (strip false q kept b).2
    exact ⟨t.reverse ++ u, by rw [stripBlocks, hu, ht, List.reverse_append, List.append_assoc]⟩

/-- Outside control sequences, blocks of shown characters are kept. -/
theorem stripBlocks_of_isShown (kept : Text) {bs : List Text} (h : ∀ c ∈ bs.flatten, isShown c = true) :
    stripBlocks absent kept bs = kept.reverse ++ bs.flatten := by
  induction bs generalizing kept with
  | nil => simp [stripBlocks]
  | cons b bs ih =>
    rw [List.flatten_cons] at h
    have hb := strip_of_isShown kept fun c hc => h c (List.mem_append_left _ hc)
    have hbs := ih (b.reverse ++ kept) fun c hc => h c (List.mem_append_right _ hc)
    simp [stripBlocks, hb, hbs]

/-- Of any blocks, what is shown at their front is. -/
theorem exists_stripBlocks_eq_append_of_isShown (kept : Text) {bs : List Text} {s t : Text}
    (hbs : bs.flatten = s ++ t) (hs : ∀ c ∈ s, isShown c = true) :
    ∃ u : Text, stripBlocks absent kept bs = kept.reverse ++ (s ++ u) := by
  induction bs generalizing kept s with
  | nil =>
    obtain ⟨rfl, -⟩ := List.append_eq_nil_iff.mp hbs.symm
    exact ⟨[], (List.append_nil _).symm⟩
  | cons b bs ih =>
    rw [List.flatten_cons] at hbs
    -- either the block ends before what is shown does, or what is shown ends within the block
    rcases List.append_eq_append_iff.mp hbs with ⟨r, rfl, hrest⟩ | ⟨r, rfl, -⟩
    · have hb := strip_of_isShown kept fun c hc => hs c (List.mem_append_left r hc)
      obtain ⟨u, hu⟩ := ih (b.reverse ++ kept) hrest fun c hc => hs c (List.mem_append_right b hc)
      exact ⟨u, by simp [stripBlocks, hb, hu]⟩
    · have hfront := strip_of_isShown kept hs
      have hb : strip false absent kept (s ++ r) = strip false absent (s.reverse ++ kept) r := by
        rw [strip_append _ _ _ r (by rw [hfront]), hfront]
      obtain ⟨u, hu⟩ := exists_stripBlocks_eq_append absent (s.reverse ++ kept) (r :: bs)
      exact ⟨u, by rw [stripBlocks, hb]; simpa [stripBlocks] using hu⟩

end ControlSequence

/-- A text that comes in blocks, without control sequences, and without control characters other than white space. -/
def withoutControls (bs : List Text) : Text := ControlSequence.stripBlocks .absent [] bs

/-- Of pieces handed on in blocks, the first keeps what is left of it alone if it leads out of control sequences, and so
does what is shown behind it. -/
theorem withoutControls_blocks_cons {size : Nat} {first word front back : Text} {pieces : List Text}
    (hsize : byteLength first ≤ size) (hfirst : ControlSequence.strip false .absent [] first = (.absent, word.reverse))
    (hpieces : pieces.flatten = front ++ back) (hfront : ∀ c ∈ front, isShown c = true) :
    ∃ rest, withoutControls (blocks size (first :: pieces)) = word ++ (front ++ rest) ∧
      ((∀ c ∈ back, isShown c = true) → rest = back) := by
  obtain ⟨block, later, hfill⟩ : ∃ block later, fill size (byteLength first) pieces = (block, later) := ⟨_, _, rfl⟩
  have hflat : (block :: later).flatten = front ++ back := by
    rw [← hpieces, ← flatten_fill size (byteLength first) pieces, hfill, List.flatten_cons]
  have hword : withoutControls (blocks size (first :: pieces)) =
      ControlSequence.stripBlocks .absent word.reverse (block :: later) := by
    have hblocks : blocks size (first :: pieces) = (first ++ block) :: later := by
      simp [blocks, fill, hsize, hfill]
    rw [withoutControls, hblocks, ControlSequence.stripBlocks,
      ControlSequence.strip_append _ _ _ block (by rw [hfirst]), hfirst]
    rfl
  obtain ⟨rest, hrest⟩ := ControlSequence.exists_stripBlocks_eq_append_of_isShown word.reverse hflat hfront
  rw [List.reverse_reverse] at hrest
  refine ⟨rest, hword.trans hrest, fun hback => ?_⟩
  have hall : ∀ c ∈ (block :: later).flatten, isShown c = true := by
    rw [hflat]
    exact fun c hc => (List.mem_append.mp hc).elim (hfront c) (hback c)
  rw [ControlSequence.stripBlocks_of_isShown _ hall, hflat, List.reverse_reverse] at hrest
  exact (List.append_cancel_left (List.append_cancel_left hrest)).symm

end EnumStrings
