import EnumStrings.Run
import EnumStrings.Terminal

/-!
# The command line

The arguments of the program name one command: `generate` with an input file, perhaps an output file, and options;
`check` with a file; `completions` with a shell; or `help`, perhaps with the name of a command. In front of all else the
version or help may be asked for instead.

Not all that the program prints is worded by the program itself: how the remarks on a source are drawn, what a help text
says, what a shell has to know to complete a command, and how a fault in the arguments is explained. What is said here
holds of every `Wording` of these.
-/

namespace EnumStrings

/-! ## Arguments of a command

The arguments of a command are operands and options, in any order. Options have a long name, as in `--namespace X` or
`--namespace=X`, and some have a letter, as in `-n X`, `-nX` or `-n=X`; letters may be bundled, as in `-snX`, up to the
first option that takes a value. After `--` all arguments are operands. Arguments are read from the left to the right,
up to the first that is at fault or asks for help.
-/

/-- Why arguments cannot be understood. -/
inductive UsageError where
  /-- There is no command of this name. -/
  | unknownCommand (name : Text)
  /-- There is no command at all. -/
  | noCommand
  /-- There is no such option. -/
  | unknownOption (argument : Text)
  /-- An option has no value. -/
  | missingValue
  /-- An option that takes no value has one. -/
  | unexpectedValue (argument : Text)
  /-- An option is given twice. -/
  | repeatedOption
  /-- A path has no characters. -/
  | emptyPath
  /-- There is no shell of this name. -/
  | unknownShell (name : Text)
  /-- There are fewer operands than needed. -/
  | missingOperand
  /-- There are more arguments than the command takes. -/
  | unexpectedArgument
deriving DecidableEq, Repr

/-- An option that takes a value. -/
inductive ValueOption where
  | scope
  | parseScope
  | stringType
  | boolType
deriving DecidableEq, Repr

/-- What a name or a letter of an option stands for. -/
inductive OptionKind where
  | value (option : ValueOption)
  | stripPrefix
  | help
deriving DecidableEq, Repr

/-- An argument that has been understood. -/
inductive Argument where
  | operand (text : Text)
  | value (option : ValueOption) (value : Text)
  | stripPrefix
deriving DecidableEq, Repr

/-- Why arguments are not read to their end. -/
inductive Halt where
  | fault (e : UsageError)
  /-- Help is asked for, by a name or by a letter. -/
  | help (long : Bool)
deriving DecidableEq, Repr

/-- What the arguments of a command may be. -/
structure Form where
  /-- The long names of the options. -/
  names : List (Text × OptionKind)
  /-- The letters of options. -/
  letters : List (Char × OptionKind)
  /-- How many operands there are at most. -/
  operands : Nat
  /-- What is wrong with an operand, if anything is. -/
  faultOf : Text → Option UsageError

namespace Argument

/-- The operands among the arguments. -/
def operands (found : List Argument) : List Text :=
  found.filterMap fun
    | operand text => some text
    | value _ _ | stripPrefix => none

/-- The value of an option, if it is given. -/
def valueOf? (found : List Argument) (option : ValueOption) : Option Text :=
  found.findSome? fun
    | value o v => if o = option then some v else none
    | operand _ | stripPrefix => none

/-- Whether an argument can be the value of the option in front of it: options cannot, a lone dash can. -/
def isValue (argument : Text) : Bool := argument.head? != some '-' || argument == ['-']

end Argument

namespace Form

/-- Arguments that have been understood, and perhaps an option whose value is to be the next one. -/
abbrev Pending := List Argument × Option ValueOption

/-- One more argument behind those that have been understood: no option is given twice. -/
def accept (form : Form) (found : List Argument) (a : Argument) : Except Halt (List Argument) :=
  let fault? : Option UsageError :=
    match a with
    | .operand text =>
      if form.operands ≤ (Argument.operands found).length then some .unexpectedArgument else form.faultOf text
    | .value option _ => if (Argument.valueOf? found option).isSome then some .repeatedOption else none
    | .stripPrefix => if a ∈ found then some .repeatedOption else none
  match fault? with
  | some e => .error (.fault e)
  | none => .ok (found ++ [a])

/-- Reads a long option, without the dashes in front. -/
def readLong (form : Form) (found : List Argument) (argument : Text) : Except Halt Pending := do
  let name := argument.takeWhile (· != '=')
  match form.names.lookup name, argument.dropWhile (· != '=') with
  | none, _ => throw (.fault (.unknownOption argument))
  | some (.value option), [] => return (found, some option)
  | some (.value option), _ :: v => return (← form.accept found (.value option v), none)
  | some .stripPrefix, [] => return (← form.accept found .stripPrefix, none)
  | some .help, [] => throw (.help true)
  | some .stripPrefix, _ :: _ | some .help, _ :: _ => throw (.fault (.unexpectedValue argument))

/-- Reads a bundle of letters, without the dash in front. -/
def readLetters (form : Form) (found : List Argument) : Text → Except Halt Pending
  | [] => .ok (found, none)
  | letter :: rest =>
    match form.letters.lookup letter, rest with
    | none, _ => .error (.fault (.unknownOption [letter]))
    | some .stripPrefix, rest => do form.readLetters (← form.accept found .stripPrefix) rest
    | some .help, _ => .error (.help false)
    | some (.value option), [] => .ok (found, some option)
    | some (.value option), '=' :: v => do return (← form.accept found (.value option v), none)
    | some (.value option), v => do return (← form.accept found (.value option v), none)

/-- Reads one argument other than `--`. -/
def readText (form : Form) (found : List Argument) : Text → Except Halt Pending
  | '-' :: '-' :: name => form.readLong found name
  | '-' :: c :: letters => form.readLetters found (c :: letters)
  | argument => do return (← form.accept found (.operand argument), none)

/-- Reads arguments behind those that have been understood. -/
def read (form : Form) (found : List Argument) : List Text → Except Halt (List Argument)
  | [] => .ok found
  | argument :: arguments =>
    if argument = ['-', '-'] then arguments.foldlM (fun found text => form.accept found (.operand text)) found
    else do
      let (found, pending) ← form.readText found argument
      match pending with
      | none => form.read found arguments
      | some option =>
        match arguments with
        | [] => throw (.fault .missingValue)
        | v :: arguments =>
          if Argument.isValue v then form.read (← form.accept found (.value option v)) arguments
          else throw (.fault .missingValue)

end Form

/-! ## Commands -/

/-- A shell that can complete the commands of the program. -/
inductive Shell where
  | bash
  | elvish
  | fish
  | powershell
  | zsh
deriving DecidableEq, Repr

/-- The names of the shells. -/
def Shell.names : List (Text × Shell) :=
  [("bash".toList, bash), ("elvish".toList, elvish), ("fish".toList, fish), ("powershell".toList, powershell),
    ("zsh".toList, zsh)]

/-- A command that reads arguments of its own. -/
inductive Verb where
  | generate
  | check
  | completions
deriving DecidableEq, Repr

namespace Verb

/-- The names of the commands. -/
def names : List (Text × Verb) :=
  [("generate".toList, generate), ("check".toList, check), ("completions".toList, completions)]

/-- A path has at least one character. -/
def pathFault (path : Text) : Option UsageError := if path = [] then some .emptyPath else none

/-- A shell has one of the known names. -/
def shellFault (name : Text) : Option UsageError :=
  if (Shell.names.lookup name).isNone then some (.unknownShell name) else none

/-- What the arguments of a command may be. Each command explains itself. -/
def form : Verb → Form
  | generate =>
    { names := [("namespace".toList, .value .scope), ("parse-namespace".toList, .value .parseScope),
        ("string-type".toList, .value .stringType), ("bool-type".toList, .value .boolType),
        ("strip-prefix".toList, .stripPrefix), ("help".toList, .help)]
      letters := [('n', .value .scope), ('p', .value .parseScope), ('s', .stripPrefix), ('h', .help)]
      operands := 2
      faultOf := pathFault }
  | check => { names := [("help".toList, .help)], letters := [('h', .help)], operands := 1, faultOf := pathFault }
  | completions =>
    { names := [("help".toList, .help)], letters := [('h', .help)], operands := 1, faultOf := shellFault }

end Verb

/-- What a help text is about. -/
inductive Topic where
  | program
  | command (verb : Verb)
  /-- The command that shows help texts. -/
  | help
deriving DecidableEq, Repr

/-- What the command line asks for. -/
inductive Command where
  | version
  | help (topic : Topic) (long : Bool)
  | generate (request : Request)
  | check (path : Text)
  | completions (shell : Shell)
deriving DecidableEq, Repr

namespace Command

/-- The options that arguments choose. -/
def options (found : List Argument) : Options :=
  let standard : Options := {}
  { scope := (Argument.valueOf? found .scope).getD standard.scope
    parseScope? := Argument.valueOf? found .parseScope
    stringType := (Argument.valueOf? found .stringType).getD standard.stringType
    boolType := (Argument.valueOf? found .boolType).getD standard.boolType
    stripPrefix := Argument.stripPrefix ∈ found }

/-- The command with the arguments that have been understood. -/
def ofArguments (verb : Verb) (found : List Argument) : Except UsageError Command :=
  match verb, Argument.operands found with
  | _, [] => .error .missingOperand
  | .generate, input :: outputs => .ok (generate { input, output? := outputs.head?, options := options found })
  | .check, path :: _ => .ok (check path)
  | .completions, name :: _ =>
    match Shell.names.lookup name with
    | some shell => .ok (completions shell)
    | none => .error (.unknownShell name)

/-- The command with the given arguments, or the help on it. -/
def ofVerb (verb : Verb) (arguments : List Text) : Except UsageError Command :=
  match verb.form.read [] arguments with
  | .ok found => ofArguments verb found
  | .error (.fault e) => .error e
  | .error (.help long) => .ok (help (.command verb) long)

/-- The help that is asked for by the command of this name. -/
def helpOn : List Text → Except UsageError Command
  | [] => .ok (help .program true)
  | [name] =>
    if name = "help".toList then .ok (help .help true)
    else
      match Verb.names.lookup name with
      | some verb => .ok (help (.command verb) true)
      | none => .error (.unknownCommand name)
  | _ => .error .unexpectedArgument

/-- The command that the arguments of the program ask for. -/
def ofTexts : List Text → Except UsageError Command
  | [] => .error .noCommand
  | name :: arguments =>
    if name = "--version".toList || "-V".toList.isPrefixOf name then .ok version
    else if name = "--help".toList then .ok (help .program true)
    else if "-h".toList.isPrefixOf name then .ok (help .program false)
    else if name = "help".toList then helpOn arguments
    else
      match Verb.names.lookup name with
      | some verb => ofVerb verb arguments
      | none => .error (.unknownCommand name)

end Command

/-! ## What the program prints

A run of the program ends with an exit code, a text on standard output, and messages on standard error: the
diagnostics in their order, and at the end what has been done or why nothing more was done. Messages are written for a
terminal, in colours, and piece by piece; the pieces of a message are collected in blocks. Standard error gets the
blocks without control sequences (`Transcript.errors`), also without those that a message quotes from a source or a
path; standard output is left as it is.
-/

/-- A message in the pieces in which it is written, line ends included. -/
abbrev Message := List String

/-- What is printed in words, or in a drawing, that are not the program's own. -/
structure Wording where
  /-- A report on the source of a file, as it is drawn. -/
  report (path source : Text) (r : Report) : Message
  /-- A help text, in full or in short. -/
  help (topic : Topic) (long : Bool) : Text
  /-- What a shell has to know to complete a command. -/
  completions (shell : Shell) : Text
  /-- What is wrong with the arguments of the program. -/
  complaint (arguments : List Text) (e : UsageError) : Message

/-- All that can be seen of a run of the program, apart from written files. -/
structure Transcript where
  exitCode : UInt8
  output : Text := []
  messages : List Message := []

/-- The number of bytes that a block of a message has room for. -/
def blockSize : Nat := 8192

/-- The message as it stands on standard error. -/
def Message.plain (message : Message) : Text := withoutControls (blocks blockSize (message.map String.toList))

/-- A text in the style that the codes name, for a terminal. -/
def styled (codes text : String) : String := "\x1b[" ++ codes ++ "m" ++ text ++ "\x1b[0m"

/-- A summary as it is printed. -/
def Summary.line (s : Summary) : Message :=
  [styled "32;1" "Finished:", " generated ", toString s.generated, " enum(s), skipped ", toString s.skipped,
    " group(s), ", toString s.warnings, " warning(s)", "\n"]

/-- A failure as it is printed. -/
def Failure.line (f : Failure) : Message := styled "31" "Error:" :: " " :: f.pieces ++ ["\n"]

namespace Transcript

/-- The text on standard error. -/
def errors (t : Transcript) : Text := t.messages.flatMap Message.plain

/-- What the program prints about a run on an input, with the messages for its success. All reports are printed as one
message. -/
def ofOutcome {α : Type} (w : Wording) (input : Text) (o : Outcome α) (onSuccess : α → List Message) : Transcript where
  exitCode :=
    match o.result with
    | .ok _ => 0
    | .error failure => failure.exitCode
  output := o.output
  messages :=
    (if o.findings.hasAny then [o.findings.reports.flatMap (w.report input o.source)] else []) ++
      match o.result with
      | .ok a => onSuccess a
      | .error failure => [failure.line]

end Transcript

/-- Carries out a command. -/
def Command.run {m : Type → Type} [Monad m] [FileStore m] (w : Wording) : Command → m Transcript
  | version => return { exitCode := 0, output := "enumgen 0.1.0\n".toList }
  | help topic long => return { exitCode := 0, output := w.help topic long }
  | completions shell => return { exitCode := 0, output := w.completions shell }
  | generate request =>
    return .ofOutcome w request.input (← EnumStrings.generate request) fun summary => [summary.line]
  | check path => return .ofOutcome w path (← EnumStrings.check path) fun _ => []

/-- The program: what its arguments ask for, or what is wrong with them. -/
def program {m : Type → Type} [Monad m] [FileStore m] (w : Wording) (arguments : List Text) : m Transcript :=
  match Command.ofTexts arguments with
  | .ok command => command.run w
  | .error e => return { exitCode := 2, messages := [w.complaint arguments e] }

end EnumStrings
