import EnumStrings.Enumeration
import EnumStrings.Layout
import EnumStrings.Name
import EnumStrings.Text

/-!
# Conversions

The C++ that is generated for an enumeration, and what the user may choose about it: functions that make strings of the
members (`to_string`), and functions that read members off strings.
-/

namespace EnumStrings

/-! ## Options of the generated code

Namespaces and type names that the generated C++ uses, and whether the strings keep the beginning that all members
share.
-/

/-- What the user may choose about the generated code. -/
structure Options where
  /-- The namespace of the functions that make strings, perhaps empty. -/
  scope : Text := "Minty".toList
  /-- The namespace of the functions that read strings, where it is not to be derived from `scope`. -/
  parseScope? : Option Text := none
  stringType : Text := "String".toList
  boolType : Text := "Bool".toList
  /-- Whether strings leave out the beginning that all members share. -/
  stripPrefix : Bool := false
deriving DecidableEq, Repr

/-- What stands before a name in a namespace: nothing for the empty namespace. -/
def qualifier (scope : Text) : Text := if scope = [] then [] else scope ++ "::".toList

/-- The namespace of the functions that read strings: `Parse` inside `scope`, unless another one is given. -/
def Options.parseScope (o : Options) : Text := o.parseScope?.getD (qualifier o.scope ++ "Parse".toList)

/-! ## The names in the functions

The names that occur in the generated functions of one enumeration: its own, the part of the function names made from
it, and each member with the string it is converted to and from.
-/

/-- The names in the functions generated for an enumeration. -/
structure Conversion where
  /-- The name of the enum. -/
  name : Text
  /-- What the names of the reading functions end with. -/
  functionName : Text
  /-- Each member with its string. -/
  cases : List (Text × Text)
deriving DecidableEq, Repr

/-- The beginning that the strings of these members leave out. -/
def Options.omitted (o : Options) (members : List Text) : Text :=
  if o.stripPrefix then sharedPrefix members else []

/-- What is left out and what is left make up the member. -/
theorem Options.omitted_append_drop (o : Options) {member : Text} {members : List Text} (h : member ∈ members) :
    o.omitted members ++ member.drop (o.omitted members).length = member := by
  have hp : o.omitted members <+: member := by
    unfold Options.omitted
    split
    · exact sharedPrefix_prefix_of_mem h
    · exact List.nil_prefix
  exact (List.prefix_iff_eq_append.mp hp)

/-- The names in the functions generated for `e`. -/
def Conversion.ofEnumeration (o : Options) (e : Enumeration) : Conversion where
  name := e.name
  functionName := snakeCase e.name
  cases := e.memberNames.map fun member => (member, member.drop (o.omitted e.memberNames).length)

/-! ## The generated C++

For each enumeration four passages are generated, each under a banner with the name of the file that it belongs in:
declarations and definitions of the functions that make strings, then of those that read them. The function `try_…`
compares what it read with a default value, so it reports failure on the string of the default member.
-/

/-- A part of the text generated for one enumeration. -/
inductive Passage where
  /-- The declarations of the functions that make strings. -/
  | toStringHeader
  /-- Their definitions. -/
  | toStringSource
  /-- The declarations of the functions that read strings. -/
  | parseHeader
  /-- Their definitions. -/
  | parseSource
deriving DecidableEq, Repr

namespace Passage

/-- The passages in the order in which they are generated. -/
def all : List Passage := [toStringHeader, toStringSource, parseHeader, parseSource]

/-- The file that a passage belongs in. -/
def title : Passage → Text
  | toStringHeader => "ToString.h".toList
  | toStringSource => "ToString.cpp".toList
  | parseHeader => "Parse.h".toList
  | parseSource => "Parse.cpp".toList

end Passage

namespace Conversion

/-- The branch that makes a string of a member. -/
def caseLine (c : Conversion) (member text : Text) : Text :=
  "case ".toList ++ c.name ++ "::".toList ++ member ++ ": return \"".toList ++ text ++ "\";".toList

/-- The branch that reads a member off its string. -/
def matchLine (c : Conversion) (member text : Text) : Text :=
  "if (string == \"".toList ++ text ++ "\") return ".toList ++ c.name ++ "::".toList ++ member ++ ";".toList

/-- The parameters of the functions that report whether they could read a string. -/
def tryParameters (c : Conversion) (o : Options) : Text :=
  "(".toList ++ o.stringType ++ " const& string, ".toList ++ c.name ++ "& value)".toList

/-- The line above every function that specialises a template. -/
def templateLine : Step := .line "template<>".toList

/-- A passage without its banner. -/
def body (c : Conversion) (o : Options) : Passage → List Step
  | .toStringHeader =>
    [.line (o.stringType ++ " to_string(".toList ++ c.name ++ " const obj);".toList),
      .gap,
      templateLine,
      .line ("inline ".toList ++ o.stringType ++ " to_string(".toList ++ c.name ++ " const& obj)".toList),
      .openBlock,
      .line "return to_string(obj);".toList,
      .closeBlock []]
  | .toStringSource =>
    [.line (o.stringType ++ " ".toList ++ qualifier o.scope ++ "to_string(".toList ++ c.name ++ " const obj)".toList),
      .openBlock,
      .line "switch (obj)".toList,
      .openBlock] ++
    c.cases.map (fun (member, text) => .line (c.caseLine member text)) ++
    [.line "default: return \"\";".toList,
      .closeBlock [],
      .closeBlock []]
  | .parseHeader =>
    [.line (c.name ++ " to_".toList ++ c.functionName ++ "(".toList ++ o.stringType ++ " const& string);".toList),
      .line (o.boolType ++ " try_".toList ++ c.functionName ++ c.tryParameters o ++ ";".toList),
      .gap,
      templateLine,
      .line ("inline void parse_to".toList ++ c.tryParameters o),
      .openBlock,
      .line ("value = to_".toList ++ c.functionName ++ "(string);".toList),
      .closeBlock [],
      .gap,
      templateLine,
      .line ("inline ".toList ++ o.boolType ++ " parse_try".toList ++ c.tryParameters o),
      .openBlock,
      .line ("return try_".toList ++ c.functionName ++ "(string, value);".toList),
      .closeBlock []]
  | .parseSource =>
    [.line (c.name ++ " ".toList ++ qualifier o.parseScope ++ "to_".toList ++ c.functionName ++ "(".toList ++
        o.stringType ++ " const& string)".toList),
      .openBlock] ++
    c.cases.map (fun (member, text) => .line (c.matchLine member text)) ++
    [.gap,
      .line ("return ".toList ++ c.name ++ "();".toList),
      .closeBlock [],
      .gap,
      .line (o.boolType ++ " ".toList ++ qualifier o.parseScope ++ "try_".toList ++ c.functionName ++
        c.tryParameters o),
      .openBlock,
      .line ("value = to_".toList ++ c.functionName ++ "(string);".toList),
      .line ("return value != ".toList ++ c.name ++ "();".toList),
      .closeBlock []]

/-- All four passages, each under its banner. -/
def steps (c : Conversion) (o : Options) : List Step :=
  Passage.all.flatMap fun p => .banner p.title :: c.body o p

end Conversion

/-- The text generated for a list of enumerations. -/
def generatedText (o : Options) (es : List Enumeration) : Text :=
  render (es.flatMap fun e => (Conversion.ofEnumeration o e).steps o)

end EnumStrings
