import EnumStrings.Conversion
import EnumStrings.Diagnostic
import EnumStrings.Text

/-!
# Runs

A run reads the enumerations in a file and then generates their conversions (`generate`), or tells whether every group
of the file declares one (`check`). Both tell the same about the file. Groups that are skipped make a check fail, but
never a generation; a generation writes once, at its end.
-/

namespace EnumStrings

/-! ## Failures of a run

A run fails if a file cannot be read or written, or if a file was to be checked and some of its groups declare no
enum. Each kind of failure has an exit code of its own.
-/

/-- Why a file cannot be read or written. -/
inductive AccessFault where
  | notFound
  | isDirectory
  /-- A file stands in the path where a directory should. -/
  | notDirectory
  /-- The path, or a name in it, has too many bytes. -/
  | nameTooLong
  /-- There is a null character in the path. -/
  | nullInPath
  /-- The content is no UTF-8. -/
  | notText
  /-- Whatever else a file system may say. -/
  | other (message : String)
deriving DecidableEq, Repr

namespace AccessFault

/-- What an operating system says of a fault, and the number that it has there, in pieces. -/
def ofSystem (description : String) (code : Nat) : List String := [description, " (os error ", toString code, ")"]

/-- The fault in words, in the pieces in which they are written. -/
def pieces : AccessFault → List String
  | notFound => ofSystem "No such file or directory" 2
  | isDirectory => ofSystem "Is a directory" 21
  | notDirectory => ofSystem "Not a directory" 20
  | nameTooLong => ofSystem "File name too long" 36
  | nullInPath => ["file name contained an unexpected NUL byte"]
  | notText => ["stream did not contain valid UTF-8"]
  | other message => [message]

/-- The fault in words. -/
def message (fault : AccessFault) : String := String.join fault.pieces

end AccessFault

/-- Why a run fails. -/
inductive Failure where
  /-- A file or a stream cannot be used. -/
  | access (path : Text) (fault : AccessFault)
  /-- So many groups of a checked file declare no enum. -/
  | malformed (path : Text) (count : Nat)
deriving DecidableEq, Repr

namespace Failure

/-- Standard output cannot be written. -/
def onOutput (fault : AccessFault) : Failure := access "standard output".toList fault

/-- Standard error cannot be written. -/
def onErrors (fault : AccessFault) : Failure := access "standard error".toList fault

/-- The failure in words, in the pieces in which they are written. -/
def pieces : Failure → List String
  | access path fault => "Failed to access " :: String.ofList path :: ": " :: fault.pieces
  | malformed path count =>
    [toString count, " group(s) in ", String.ofList path, " do not start with an enum declaration"]

/-- The failure in words. -/
def message (f : Failure) : String := String.join f.pieces

/-- The exit code of a run that fails so. -/
def exitCode : Failure → UInt8
  | access .. => 3
  | malformed .. => 1

end Failure

/-! ## Directories

A directory as a value: the files and directories in it, by the names that lead to them. Paths are followed name by
name, as a file system does it: `.` stays, `..` goes back, and each name but the last has to lead to a directory. Paths
can lead out of the directory; there are the directories above it and the root, and nothing else is known to be there.
Writing changes the file at the end of the path and no other (`node?_put_of_ne`).

Places are told by names alone: there are no links and no permissions, and a path that starts at the root never leads
to a place inside the directory.
-/

/-- The name that leads from a directory to the one above it. -/
def parentName : Text := ['.', '.']

/-- The name that stands for the root, at the front of the names that lead on from there. -/
def rootName : Text := ['/']

/-- What a name in a directory stands for. -/
inductive Node where
  | file (content : ByteArray)
  | directory

/-- A directory with all that is in it; each node is listed with the names that lead to it. -/
structure Directory where
  nodes : List (List Text × Node) := []

namespace Directory

/-- Whether names lead to the directory itself, to one above it, or to the root. -/
def isAbove (names : List Text) : Bool := names.all (· == parentName) || names == [rootName]

/-- What the names lead to. -/
def node? (d : Directory) (names : List Text) : Option Node :=
  if isAbove names then some .directory else (d.nodes.find? (·.1 == names)).map (·.2)

/-- The directory with this node at the end of the names. -/
def put (d : Directory) (names : List Text) (node : Node) : Directory :=
  ⟨(names, node) :: d.nodes.filter (·.1 != names)⟩

/-- The place that a name leads to from another place. Nothing is above the root. -/
def move (place : List Text) (name : Text) : List Text :=
  if name = [] ∨ name = ['.'] then place
  else if name = parentName then
    if place = [rootName] then place
    else if isAbove place then place ++ [parentName]
    else place.dropLast
  else place ++ [name]

/-- The place that a name leads to, if it stands for something in a directory at this place: a name has at most 255
bytes. -/
def step (d : Directory) (place : List Text) (name : Text) : Except AccessFault (List Text) :=
  match d.node? place with
  | some .directory => if 255 < byteLength name then .error .nameTooLong else .ok (move place name)
  | some (.file _) => .error .notDirectory
  | none => .error .notFound

/-- Where the names lead from a place. There may be nothing, but the way there goes through directories only. -/
def follow (d : Directory) (place : List Text) : List Text → Except AccessFault (List Text)
  | [] => .ok place
  | name :: names => do d.follow (← d.step place name) names

/-- The place where a path starts. -/
def start (path : Text) : List Text := if path.head? = some '/' then [rootName] else []

/-- The names in a path, without the empty ones at its end. -/
def namesOf (path : Text) : List Text := ((path.splitOn '/').reverse.dropWhile (· = [])).reverse

/-- Fails if the path is none: it has at least one byte, at most 4095, and none of them is null. -/
def checkPath (path : Text) : Except AccessFault Unit := do
  if '\x00' ∈ path then throw .nullInPath
  if path = [] then throw .notFound
  if 4095 < byteLength path then throw .nameTooLong

/-- The content of the file at a path. -/
def read (d : Directory) (path : Text) : Except AccessFault ByteArray := do
  checkPath path
  match d.node? (← d.follow (start path) (path.splitOn '/')) with
  | some (.file content) => return content
  | some .directory => throw .isDirectory
  | none => throw .notFound

/-- Where a file can be written: at the end of a path that has no slash there and leads to no directory. -/
def target (d : Directory) (path : Text) : Except AccessFault (List Text) := do
  checkPath path
  let place ← d.follow (start path) (namesOf path).dropLast
  if path.getLast? = some '/' then
    let _ ← d.step place []
    throw .isDirectory
  let place ← d.step place ((namesOf path).getLastD [])
  match d.node? place with
  | some .directory => throw .isDirectory
  | _ => return place

/-- The directory after a file has been written. -/
def write (d : Directory) (path : Text) (content : ByteArray) : Except AccessFault Directory :=
  (d.target path).map fun place => d.put place (.file content)

/-- The directory with a directory at the end of each beginning of the names, where there was nothing before. -/
def withDirectories (d : Directory) (names : List Text) : Directory :=
  ((List.range (names.length + 1)).map names.take).foldl
    (fun d place => if d.node? place = none then d.put place .directory else d) d

/-- The directory with the given nodes at the given paths, and all directories on the way to them. -/
def ofList (nodes : List (Text × Node)) : Directory :=
  nodes.foldl (fun d (path, node) =>
    let place := (namesOf path).foldl move (start path)
    (d.withDirectories place.dropLast).put place node) {}

/-- The files in a directory, by their paths. -/
def files (d : Directory) : List (Text × ByteArray) :=
  d.nodes.filterMap fun
    | (names, .file content) =>
      if names.head? = some parentName ∨ names.head? = some rootName then none
      else some (['/'].intercalate names, content)
    | (_, .directory) => none

theorem node?_put_of_ne (d : Directory) {names others : List Text} (node : Node) (h : others ≠ names) :
    (d.put names node).node? others = d.node? others := by
  have hsame : (fun n : List Text × Node => !decide (n.1 = names) && decide (n.1 = others)) =
      fun n => n.1 == others := by
    funext n
    by_cases ho : n.1 = others <;> simp [ho, h]
  simp [node?, put, Ne.symm h, List.find?_filter, hsame]

theorem node?_put_self (d : Directory) {names : List Text} (node : Node) (h : isAbove names = false) :
    (d.put names node).node? names = some node := by
  simp [node?, put, h]

end Directory

/-! ## File stores

A run reads one file and writes at most one. It does so through a `FileStore`, so that one and the same run works on
the files of a computer and on a `Directory` that is passed along.
-/

/-- Effects that can read and write files. -/
class FileStore (m : Type → Type) where
  /-- The content of the file at a path. -/
  readFile : Text → m (Except AccessFault ByteArray)
  /-- Replaces the content of the file at a path, or makes the file. -/
  writeFile : Text → ByteArray → m (Except AccessFault Unit)

/-- A directory that is passed along, and stays as it is if a file cannot be written. -/
instance : FileStore (StateM Directory) where
  readFile path := return (← get).read path
  writeFile path content := do
    match (← get).write path content with
    | .ok d =>
      set d
      return .ok ()
    | .error fault => return .error fault

/-! ## Generations and checks -/

/-- What a generation is asked for. -/
structure Request where
  input : Text
  /-- The file to be written; without one, the text goes to standard output. -/
  output? : Option Text := none
  options : Options := {}
deriving DecidableEq, Repr

/-- What comes of a run, apart from written files. -/
structure Outcome (α : Type) where
  /-- The source that was read. -/
  source : Text := []
  findings : Findings := .empty
  events : List Event := []
  /-- The text for standard output. -/
  output : Text := []
  result : Except Failure α

/-- The listing of a file, given what came of reading it. -/
def Listing.ofFile (path : Text) : Except AccessFault ByteArray → Except Failure Listing
  | .error fault => .error (.access path fault)
  | .ok bytes =>
    match ofBytes? bytes with
    | some src => .ok (ofSource src)
    | none => .error (.access path .notText)

section

variable {m : Type → Type} [Monad m] [FileStore m]

/-- The listing of the file at a path. -/
def load (path : Text) : m (Except Failure Listing) := return Listing.ofFile path (← FileStore.readFile path)

/-- Generates the conversions for every enumeration in a file. -/
def generate (r : Request) : m (Outcome Summary) := do
  match ← load r.input with
  | .error failure => return { result := .error failure }
  | .ok listing =>
    let text := generatedText r.options listing.enumerations
    let done : Outcome Summary :=
      { source := listing.source
        findings := listing.findings
        events := listing.events ++ [.finished listing.summary]
        result := .ok listing.summary }
    match r.output? with
    | none => return { done with output := text }
    | some path =>
      match ← FileStore.writeFile path (toBytes text) with
      | .ok () => return done
      | .error fault => return { done with events := listing.events, result := .error (.access path fault) }

/-- Tells whether every group of a file declares an enum. -/
def check (path : Text) : m (Outcome Unit) := do
  match ← load path with
  | .error failure => return { result := .error failure }
  | .ok listing =>
    let skipped := listing.summary.skipped
    return {
      source := listing.source
      findings := listing.findings
      events := listing.events
      result := if skipped = 0 then .ok () else .error (.malformed path skipped) }

end

end EnumStrings
