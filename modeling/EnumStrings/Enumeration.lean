import EnumStrings.Source
import EnumStrings.Text

/-!
# Enumerations

An enum is read off a group of lines: a declaration line gives its name, and enumerators, on that line or on the others,
give its members. A reader takes a text apart from the left to the right, and takes each token as far as it goes; it
finds what the pattern of its texts finds (`Declaration.ofLine?_eq_captures?`, `enumerator?_eq_captures?`).
-/

namespace EnumStrings

/-- An enum as it is declared in a source: what the conversions are generated from. -/
structure Enumeration where
  name : Text
  /-- The names of the members in their order; a name may occur more than once. -/
  members : List Excerpt
  /-- The whole declaration, from its first line to its last. -/
  span : Span
deriving DecidableEq, Repr

/-- The names of the members, in their order. -/
def Enumeration.memberNames (e : Enumeration) : List Text := e.members.map (·.text)

/-! ## Tokens of a declaration

Declarations and enumerators share their words and the way they end: after white space a line may carry a comment,
two slashes and all that follows them (`isTrailing`).
-/

/-- The word at the front of a text, if it starts with a letter from A to Z in either case, and what follows it. -/
def identifier? : Text → Option (Text × Text)
  | c :: s => if c.isAlpha then some ((c :: s).takeWhile isWord, (c :: s).dropWhile isWord) else none
  | [] => none

/-- What follows the given word at the front of a text. -/
def keyword? : Text → Text → Option Text
  | [], s => some s
  | k :: word, c :: s => if k = c then keyword? word s else none
  | _ :: _, [] => none

/-- Whether a text is a comment: two slashes, and no line feed up to its end. -/
def isComment : Text → Bool
  | '/' :: '/' :: s => !s.contains '\n'
  | _ => false

/-- Whether a text is white space, perhaps with a comment after it. -/
def isTrailing (s : Text) : Bool := (skipBlanks s).isEmpty || isComment (skipBlanks s)

theorem keyword?_append (word s : Text) : keyword? word (word ++ s) = some s := by
  induction word with
  | nil => rfl
  | cons k word ih => simp [keyword?, ih]

theorem eq_append_of_keyword? {word s t : Text} (h : keyword? word s = some t) : s = word ++ t := by
  fun_induction keyword? word s with
  | case1 => simpa using h
  | case2 c word s ih => simp [ih h]
  | case3 => simp at h
  | case4 => simp at h

/-- Nothing follows a word that is not there. -/
theorem keyword?_eq_none {word s : Text} (h : ∀ t, s ≠ word ++ t) : keyword? word s = none := by
  cases hs : keyword? word s with
  | none => rfl
  | some t => exact absurd (eq_append_of_keyword? hs) (h t)

/-! ## Declaration lines

A declaration line reads `enum`, perhaps `class` or `struct`, the name, perhaps a colon and the underlying type, and
perhaps an opening brace with members behind it (`Declaration.ofLine?`).

* A word after `enum` is a qualifier only if a name follows it; otherwise it is the name itself (`declaredName?`).
* Members behind the brace end at the closing brace, which may have a semicolon and a comment after it. If anything
  else stands there, a comment has to start inside the braces and swallow it, and the members end at the last pair of
  slashes. Without a closing brace the whole rest of the line holds members (`inlineBody?`).
-/

/-- The words that may stand between `enum` and the name. -/
def qualifiers : List Text := ["class".toList, "struct".toList]

/-- The name of the enum, at the front of what follows `enum`, and what follows the name. -/
def declaredName? (s : Text) : Option (Text × Text) := do
  let (word, rest) ← identifier? s
  if word ∈ qualifiers then
    return ((skipSomeBlanks? rest).bind identifier?).getD (word, rest)
  else
    return (word, rest)

/-- Whether a character may begin a word of the underlying type. -/
def isTypeStart (c : Char) : Bool := c.isAlpha || c == '_'

/-- Whether a character may stand in a word of the underlying type, such as `std::uint8_t`. -/
def isTypeChar (c : Char) : Bool := isWord c || c == ':'

theorem isTypeChar_of_isTypeStart {c : Char} (h : isTypeStart c = true) : isTypeChar c = true := by
  rcases Bool.or_eq_true_iff.mp h with hc | hc
  · simp [isTypeChar, isWord_of_isAlpha hc]
  · have : c = '_' := by simpa using hc
    subst this
    decide

/-- What follows the words of a type, which stand at the front of the text with white space between them. -/
def skipTypeWords : Text → Text
  | [] => []
  | c :: s => if isTypeStart c then skipTypeWords (skipBlanks (s.dropWhile isTypeChar)) else c :: s
termination_by s => s.length
decreasing_by
  exact Nat.lt_succ_of_le (Nat.le_trans (List.dropWhile_suffix _).length_le (List.dropWhile_suffix _).length_le)

/-- What follows the underlying type, which is optional, and white space. -/
def skipUnderlying? (s : Text) : Option Text :=
  match skipBlanks s with
  | ':' :: s =>
    match skipBlanks s with
    | c :: s => if isTypeStart c then some (skipTypeWords (c :: s)) else none
    | [] => none
  | s => some s

/-- The text in front of the last pair of slashes. -/
def beforeLastSlashes? : Text → Option Text
  | [] => none
  | c :: s =>
    match beforeLastSlashes? s with
    | some before => some (c :: before)
    | none => if c = '/' ∧ s.head? = some '/' then some [] else none

/-- What follows a semicolon, which is optional, with white space in front of it. -/
def skipSemicolon (s : Text) : Text :=
  match skipBlanks s with
  | ';' :: s => s
  | s => s

/-- The text that holds members, in the text `s` behind the opening brace. -/
def inlineBody? (s : Text) : Option Text :=
  let inside := s.takeWhile (· != '}')
  match s.dropWhile (· != '}') with
  | [] => some inside
  | _ :: after =>
    if isTrailing (skipSemicolon after) then some inside
    else do
      let body ← beforeLastSlashes? inside
      guard (isComment (s.drop body.length))
      return body

/-- What a declaration line declares. -/
structure Declaration where
  name : Text
  /-- The text behind the opening brace that holds members; its place is counted from the start of the line. -/
  body : Option Excerpt
deriving DecidableEq, Repr

/-- The declaration on a line, if it is one. -/
def Declaration.ofLine? (line : Text) : Option Declaration := do
  let s ← keyword? "enum".toList (skipBlanks line)
  let (name, s) ← declaredName? (← skipSomeBlanks? s)
  match ← skipUnderlying? s with
  | '{' :: s =>
    let body ← inlineBody? s
    return { name, body := some ⟨body, byteLength line - byteLength s⟩ }
  | s =>
    guard (isTrailing s)
    return { name, body := none }

/-! ## Enumerators

An enumerator reads as a name, perhaps an equals sign and an integer literal, perhaps a comma, and perhaps a comment
(`enumerator?`). Any other text declares no member. The literal is decimal, hexadecimal or binary, with apostrophes
between its digits, a sign in front and letters for its type behind.
-/

/-- Whether a character may stand among hexadecimal digits. -/
def isHexDigit (c : Char) : Bool :=
  ('0' ≤ c && c ≤ '9') || ('a' ≤ c && c ≤ 'f') || ('A' ≤ c && c ≤ 'F') || c == '\''

/-- Whether a character may stand among binary digits. -/
def isBinaryDigit (c : Char) : Bool := c == '0' || c == '1' || c == '\''

/-- Whether a character may stand among decimal digits. -/
def isDecimalDigit (c : Char) : Bool := isDigit c || c == '\''

/-- Whether a letter may end a literal and tell its type: unsigned or long. -/
def isSuffix (c : Char) : Bool := c == 'u' || c == 'U' || c == 'l' || c == 'L'

/-- What follows one or more characters of a class. -/
def skipSome? (p : Char → Bool) : Text → Option Text
  | c :: s => if p c then some (s.dropWhile p) else none
  | [] => none

/-- What follows the digits of an integer literal. -/
def skipDigits? : Text → Option Text
  | '0' :: 'x' :: s => skipSome? isHexDigit s
  | '0' :: 'X' :: s => skipSome? isHexDigit s
  | '0' :: 'b' :: s => skipSome? isBinaryDigit s
  | '0' :: 'B' :: s => skipSome? isBinaryDigit s
  | c :: s => if isDigit c then some (s.dropWhile isDecimalDigit) else none
  | [] => none

/-- What follows the sign of a literal, which is optional. -/
def skipSign : Text → Text
  | '-' :: s => s
  | '+' :: s => s
  | s => s

/-- What follows the initialiser of a member, which is optional, and white space. -/
def skipInitialiser? (s : Text) : Option Text :=
  match skipBlanks s with
  | '=' :: s => (skipDigits? (skipSign (skipBlanks s))).map fun s => skipBlanks (s.dropWhile isSuffix)
  | s => some s

/-- Whether a text can stand behind the name of a member, from its initialiser to its comment. -/
def endsEnumerator (s : Text) : Bool :=
  match skipInitialiser? s with
  | some (',' :: s) => isTrailing s
  | some s => isTrailing s
  | none => false

/-- The name that a text declares, if it is an enumerator. -/
def enumerator? (e : Excerpt) : Option Excerpt :=
  let blanks := e.text.takeWhile isBlank
  let name := (skipBlanks e.text).takeWhile isWord
  if name ≠ [] ∧ endsEnumerator ((skipBlanks e.text).dropWhile isWord) then
    some ⟨name, e.start + byteLength blanks⟩
  else
    none

/-! ## Reading an enumeration off a group of lines

The first line of a group has to declare an enum. The candidates for members are the pieces between the commas behind
the opening brace, then the other lines of the group; those that are enumerators are the members, and all others are
passed over (`Enumeration.ofGroup`).
-/

/-- Why a group of lines is no enumeration. -/
inductive GroupError where
  /-- Its first line declares no enum. -/
  | notADeclaration (line : Excerpt)
deriving DecidableEq, Repr

namespace GroupError

/-- The place of the fault. -/
def span : GroupError → Span
  | notADeclaration line => line.span

/-- The text at fault, without white space around it. -/
def text : GroupError → Text
  | notADeclaration line => trim line.text

/-- The fault in words. -/
def message (e : GroupError) : String :=
  "expected an enum declaration, found `" ++ String.ofList e.text ++ "`"

end GroupError

/-- The texts of a group that may declare a member, once its first line has been read. -/
def Group.candidates (g : Group) (d : Declaration) : List Excerpt :=
  match d.body with
  | some body => Excerpt.pieces ⟨body.text, g.declaration.start + body.start⟩ ++ g.body
  | none => g.body

/-- The enumeration that a group of lines declares. -/
def Enumeration.ofGroup (g : Group) : Except GroupError Enumeration :=
  match Declaration.ofLine? g.declaration.text with
  | some d => .ok { name := d.name, members := (g.candidates d).filterMap enumerator?, span := g.span }
  | none => .error (.notADeclaration g.declaration)

end EnumStrings
