import EnumStrings.Enumeration

/-!
# Patterns

A pattern tells which texts match it, and which parts of them are to be found. Texts are matched by trial, from the left
to the right (`Pattern.run`): of two patterns the first is tried first, and a repetition tries one more round before it
stops. So of all ways to match a text the first one that is tried tells the parts.

The forms of declaration lines and of enumerators are patterns (`Pattern.declaration`, `Pattern.enumerator`).
-/

namespace EnumStrings

/-- The parts of a text that patterns find. -/
inductive Part where
  | name | body
deriving DecidableEq, Repr

/-- The parts that have been found, their places counted from the start of the text. -/
abbrev Captures := List (Part × Excerpt)

/-- What the rest of a match finds in what is left of the text, if it is a match at all. -/
abbrev Rest := Text → Option Captures

/-- The rest of a match finds nothing in front of a character with the property. -/
def Rest.Fails (rest : Rest) (p : Char → Bool) : Prop := ∀ c s, p c = true → rest (c :: s) = none

/-- The patterns of texts. -/
inductive Pattern where
  /-- One character with a property. -/
  | one (p : Char → Bool)
  /-- Nothing. -/
  | empty
  /-- One pattern and behind it the other. -/
  | seq (p q : Pattern)
  /-- One pattern, or else the other. -/
  | alt (p q : Pattern)
  /-- The pattern as often as possible, perhaps never. -/
  | star (p : Pattern)
  /-- A part to be found. -/
  | part (f : Part) (p : Pattern)

/-- One more round of a repetition and then all others, or else the rest. A round has to take something. -/
def repeated (round : Rest → Rest) (rest : Rest) (s : Text) : Option Captures :=
  (round (fun t => if t.length < s.length then repeated round rest t else none) s).or (rest s)
termination_by s.length

namespace Pattern

/-- What is found by matching a pattern and then the rest. What is left of the text `whole` tells how far the match has
come. -/
def run (whole : Text) : Pattern → Rest → Rest
  | one _, _, [] => none
  | one p, rest, c :: s => if p c then rest s else none
  | empty, rest, s => rest s
  | seq p q, rest, s => p.run whole (q.run whole rest) s
  | alt p q, rest, s => (p.run whole rest s).or (q.run whole rest s)
  | star p, rest, s => repeated (p.run whole) rest s
  | part f p, rest, s =>
    p.run whole (fun t => (rest t).map ((f, ⟨s.take (s.length - t.length), byteLength whole - byteLength s⟩) :: ·)) s

/-- A match may end where the text ends. -/
def atEnd (s : Text) : Option Captures := if s.isEmpty then some [] else none

/-- The parts of a text that matches the pattern as a whole. -/
def captures? (p : Pattern) (s : Text) : Option Captures := p.run s atEnd s

instance : Append Pattern := ⟨seq⟩

/-- The pattern, or nothing. -/
def opt (p : Pattern) : Pattern := alt p empty

/-- The pattern, once or more. -/
def plus (p : Pattern) : Pattern := p ++ star p

/-- One of the given characters. -/
def among (cs : List Char) : Pattern := one (cs.contains ·)

/-- A given text. -/
def literal : Text → Pattern
  | [] => empty
  | c :: s => one (· == c) ++ literal s

/-! ## How patterns run -/

section Runs

variable {whole s : Text} {rest : Rest} {p : Char → Bool}

@[simp] theorem run_append (P Q : Pattern) : (P ++ Q).run whole rest = P.run whole (Q.run whole rest) := rfl

@[simp] theorem run_opt (P : Pattern) : (opt P).run whole rest s = (P.run whole rest s).or (rest s) := rfl

@[simp] theorem run_alt (P Q : Pattern) :
    (alt P Q).run whole rest s = (P.run whole rest s).or (Q.run whole rest s) := rfl

@[simp] theorem run_one_cons (c : Char) : (one p).run whole rest (c :: s) = if p c then rest s else none := rfl

@[simp] theorem run_one_nil : (one p).run whole rest [] = none := rfl

/-- A repetition takes one more round, if this leads to a match, and stops otherwise. -/
theorem run_star (P : Pattern) : (star P).run whole rest s =
    (P.run whole (fun t => if t.length < s.length then (star P).run whole rest t else none) s).or (rest s) := by
  change repeated (P.run whole) rest s = _
  rw [repeated]
  rfl

theorem run_star_one_nil : (star (one p)).run whole rest [] = rest [] := by
  rw [run_star, run_one_nil, Option.none_or]

theorem run_star_one_cons (c : Char) : (star (one p)).run whole rest (c :: s) =
    (if p c then (star (one p)).run whole rest s else none).or (rest (c :: s)) := by
  have hlt : s.length < (c :: s).length := Nat.lt_succ_self _
  rw [run_star, run_one_cons, if_pos hlt]

/-- A run is taken to its end, if no match in front of its end is missed by this. -/
theorem run_star_one (h : ∀ c s, p c = true → rest (s.dropWhile p) = none → rest (c :: s) = none) (s : Text) :
    (star (one p)).run whole rest s = rest (s.dropWhile p) := by
  induction s with
  | nil => exact run_star_one_nil
  | cons c s ih =>
    rw [run_star_one_cons, ih]
    by_cases hc : p c = true
    · rw [if_pos hc, List.dropWhile_cons_of_pos hc]
      cases hs : rest (s.dropWhile p) with
      | none => rw [h c s hc hs, Option.none_or]
      | some found => rw [Option.some_or]
    · rw [if_neg hc, List.dropWhile_cons_of_neg hc, Option.none_or]

/-- A run is taken to its end, if there is no match in front of a character that continues it. -/
theorem run_star_one_of_fails (h : rest.Fails p) (s : Text) :
    (star (one p)).run whole rest s = rest (s.dropWhile p) :=
  run_star_one (fun c s hc _ => h c s hc) s

theorem run_plus_one (h : rest.Fails p) (s : Text) : (plus (one p)).run whole rest s = (skipSome? p s).bind rest := by
  cases s with
  | nil => rfl
  | cons c s =>
    rw [plus, run_append, run_one_cons, run_star_one_of_fails h, skipSome?]
    split <;> rfl

theorem run_literal (word s : Text) : (literal word).run whole rest s = (keyword? word s).bind rest := by
  induction word generalizing s with
  | nil => cases s <;> rfl
  | cons k word ih =>
    cases s with
    | nil => rfl
    | cons c s =>
      rw [literal, run_append, run_one_cons, ih, keyword?]
      by_cases hc : c = k
      · simp [hc]
      · simp [hc, Ne.symm hc]

/-- A part is what has been taken of the text in front of the rest. -/
theorem run_part (f : Part) (P : Pattern) : (part f P).run whole rest s = P.run whole (fun t =>
    (rest t).map ((f, ⟨s.take (s.length - t.length), byteLength whole - byteLength s⟩) :: ·)) s := by
  cases s <;> rfl

/-- What has been taken of a text is told by what is left of it. -/
theorem take_length_sub (w r : Text) : (w ++ r).take ((w ++ r).length - r.length) = w := by simp

end Runs

/-! ## The patterns of declaration lines and enumerators -/

/-- White space, perhaps none. -/
def blanks : Pattern := star (one isBlank)

/-- White space. -/
def someBlanks : Pattern := plus (one isBlank)

/-- White space, perhaps with a comment behind it. -/
def trailing : Pattern := blanks ++ opt (literal "//".toList ++ star (one (· != '\n')))

/-- A word of an underlying type. -/
def typeWord : Pattern := one isTypeStart ++ star (one isTypeChar)

/-- A colon and the words of an underlying type. -/
def underlying : Pattern := blanks ++ literal [':'] ++ blanks ++ typeWord ++ star (someBlanks ++ typeWord)

/-- A closing brace, perhaps with a semicolon behind it. -/
def closing : Pattern := literal ['}'] ++ blanks ++ opt (literal [';'])

/-- An opening brace and members, perhaps with a closing brace behind them. -/
def braces : Pattern := literal ['{'] ++ part .body (star (one (· != '}'))) ++ opt closing

/-- The qualifier between `enum` and the name. -/
def qualifier : Pattern := someBlanks ++ alt (literal "class".toList) (literal "struct".toList)

/-- Digits behind a zero and a letter that tells their base. -/
def based (letters : List Char) (p : Char → Bool) : Pattern := literal ['0'] ++ among letters ++ plus (one p)

/-- The digits of an integer literal. -/
def digits : Pattern :=
  alt (based ['x', 'X'] isHexDigit) (alt (based ['b', 'B'] isBinaryDigit) (one isDigit ++ star (one isDecimalDigit)))

/-- An equals sign and an integer literal, with white space around it. -/
def initialiser : Pattern :=
  literal ['='] ++ blanks ++ opt (among ['-', '+']) ++ digits ++ star (one isSuffix) ++ blanks

/-- A declaration line. -/
def declaration : Pattern :=
  blanks ++ literal "enum".toList ++ opt qualifier ++ someBlanks ++ part .name (one (·.isAlpha) ++ star (one isWord)) ++
    opt underlying ++ blanks ++ opt braces ++ trailing

/-- An enumerator. -/
def enumerator : Pattern :=
  blanks ++ part .name (plus (one isWord)) ++ blanks ++ opt initialiser ++ opt (literal [',']) ++ trailing

end Pattern

end EnumStrings
