import EnumStrings.CommandLine

/-!
# The program

Runs the program on the files of the computer, and prints what it tells. The texts that are left to a `Wording` are
plain ones here; nothing is proved about them.
-/

namespace EnumStrings

/-- The fault with a code of the operating system. Codes come with either sign. -/
def faultOfCode (code : UInt32) (details : String) : AccessFault :=
  match (min code (-code)).toNat with
  | 2 => .notFound
  | 20 => .notDirectory
  | 21 => .isDirectory
  | 36 => .nameTooLong
  | n => .other (details ++ " (os error " ++ toString n ++ ")")

/-- The fault that an error of the file system reports. -/
def faultOf : IO.Error → AccessFault
  | .noFileOrDirectory _ code details | .inappropriateType _ code details | .invalidArgument _ code details
  | .permissionDenied _ code details | .resourceExhausted _ code details => faultOfCode code details
  | e => .other (toString e)

/-- What comes of an action, or the fault that stopped it. -/
def attempt {α : Type} (action : IO α) : IO (Except AccessFault α) :=
  try return .ok (← action)
  catch e => return .error (faultOf e)

/-- What comes of an action on the file at a path. -/
def attemptOn {α : Type} (path : Text) (action : String → IO α) : IO (Except AccessFault α) :=
  if '\x00' ∈ path then return .error .nullInPath
  else attempt (action (String.ofList path))

/-- How the program is called. -/
def usage : String :=
  "usage: enumgen generate INPUT [OUTPUT] [-n NAMESPACE] [-p NAMESPACE] [--string-type TYPE] [--bool-type TYPE]\n" ++
  "                        [-s]\n" ++
  "       enumgen check FILE\n" ++
  "       enumgen completions SHELL\n" ++
  "       enumgen help [COMMAND]\n" ++
  "       enumgen --version\n"

/-- The fault in words. -/
def UsageError.message : UsageError → String
  | unknownCommand name => "there is no command '" ++ String.ofList name ++ "'"
  | noCommand => "a command is needed"
  | unknownOption argument => "there is no option '" ++ String.ofList argument ++ "'"
  | missingValue => "an option has no value"
  | unexpectedValue argument => "'" ++ String.ofList argument ++ "' takes no value"
  | repeatedOption => "an option is given twice"
  | emptyPath => "a path has no characters"
  | unknownShell name => "there is no shell '" ++ String.ofList name ++ "'"
  | missingOperand => "an argument is missing"
  | unexpectedArgument => "there are more arguments than the command takes"

/-- The words of a shell that completes the names of the commands. -/
def commandWords : Text := ['\n'].intercalate (Verb.names.map (·.1)) ++ ['\n']

/-- Plain words: a report is its message and its remarks with the bytes that they are about. -/
def plainWording : Wording where
  report path _ r :=
    let word := match r.severity with
      | .error => "Error: "
      | .warning => "Warning: "
    [word, r.message, "\n"] ++ r.labels.flatMap fun l =>
      ["  ", String.ofList path, ":", toString l.span.start, "-", toString l.span.stop, ": ", l.message, "\n"]
  help _ _ := usage.toList
  completions _ := commandWords
  complaint _ e := ["error: ", e.message, "\n", usage]

/-- The files of the computer. -/
instance : FileStore IO where
  readFile path := attemptOn path fun path => IO.FS.readBinFile path
  writeFile path content := attemptOn path fun path => IO.FS.writeBinFile path content

/-- Prints a text and makes sure that it is out. -/
def putAll (stream : IO.FS.Stream) (s : String) : IO Unit := do
  stream.putStr s
  stream.flush

/-- Prints what a run tells, and gives its exit code. -/
def Transcript.print (t : Transcript) : IO UInt32 := do
  let stream ← IO.getStderr
  match ← attempt (do putAll (← IO.getStdout) (String.ofList t.output)) with
  | .error fault =>
    let failure := Failure.onOutput fault
    let failed : Transcript := { exitCode := failure.exitCode, messages := [failure.line] }
    let _ ← attempt (putAll stream (String.ofList failed.errors))
    return failed.exitCode.toUInt32
  | .ok () =>
    match ← attempt (putAll stream (String.ofList t.errors)) with
    | .error fault => return (Failure.onErrors fault).exitCode.toUInt32
    | .ok () => return t.exitCode.toUInt32

end EnumStrings

/-- Runs the program with the given arguments. -/
def main (arguments : List String) : IO UInt32 := do
  let transcript : EnumStrings.Transcript ← EnumStrings.program EnumStrings.plainWording (arguments.map String.toList)
  transcript.print
