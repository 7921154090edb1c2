import EnumStrings.Enumeration
import EnumStrings.Name

/-!
# Diagnostics

What is told about a source: groups that were skipped, which is an error, and enumerations that look odd, which is a
warning. `Diagnostic.ofResult` lists them for one group: nothing but the error, or the warnings, where a repeated
member always points back to the first member of its name. `Findings` collects what is reported, a `Listing` holds what
became of each group, and events tell it to those who listen.
-/

namespace EnumStrings

/-! ## What there is to say about a group -/

/-- How grave a diagnostic is. -/
inductive Severity where
  | error
  | warning
deriving DecidableEq, Repr

/-- The colour in which a label is drawn. -/
inductive Color where
  | red
  | yellow
  | blue
deriving DecidableEq, Repr

/-- A remark on a stretch of the source. -/
structure Label where
  span : Span
  message : String
  color : Color
deriving DecidableEq, Repr

/-- What a user sees of a diagnostic. -/
structure Report where
  severity : Severity
  message : String
  span : Span
  labels : List Label
deriving DecidableEq, Repr

/-- Something that a user is told about a source. -/
inductive Diagnostic where
  /-- A group was skipped. -/
  | skipped (fault : GroupError)
  /-- An enumeration has no members. -/
  | noMembers (e : Enumeration)
  /-- A member has the name of an earlier one. -/
  | repeated (e : Enumeration) (again first : Excerpt)
deriving DecidableEq, Repr

namespace Diagnostic

/-- Skipping a group is an error, all else is a warning. -/
def severity : Diagnostic → Severity
  | skipped _ => .error
  | noMembers _ | repeated .. => .warning

/-- The diagnostic in words. -/
def message : Diagnostic → String
  | skipped fault => fault.message
  | noMembers e => "enum `" ++ String.ofList e.name ++ "` has no members"
  | repeated e again _ =>
    "`" ++ String.ofList again.text ++ "` is declared more than once in enum `" ++ String.ofList e.name ++ "`"

/-- The place that the diagnostic is about. -/
def span : Diagnostic → Span
  | skipped fault => fault.span
  | noMembers e => e.span
  | repeated _ again _ => again.span

/-- The remarks on the source, the place itself first. -/
def labels : Diagnostic → List Label
  | skipped fault => [⟨fault.span, "this line should declare an enum, so this group was skipped", .red⟩]
  | noMembers e => [⟨e.span, "only the fallback branches will be generated for this enum", .yellow⟩]
  | repeated _ again first =>
    [⟨again.span, "parsing only ever matches the first declaration", .yellow⟩,
      ⟨first.span, "it was first declared here", .blue⟩]

/-- What is shown of the diagnostic. -/
def report (d : Diagnostic) : Report := ⟨d.severity, d.message, d.span, d.labels⟩

/-- The number of errors. -/
def errorCount (ds : List Diagnostic) : Nat := ds.countP (·.severity = .error)

/-- The number of warnings. -/
def warningCount (ds : List Diagnostic) : Nat := ds.countP (·.severity = .warning)

theorem errorCount_add_warningCount (ds : List Diagnostic) : errorCount ds + warningCount ds = ds.length := by
  induction ds with
  | nil => rfl
  | cons d ds ih =>
    cases h : d.severity <;> simp [errorCount, warningCount, h] at ih ⊢ <;> omega

/-- The members of a list whose names occur earlier in it or in `seen`, each with the first member of its name. -/
def repeats (seen : List Excerpt) : List Excerpt → List (Excerpt × Excerpt)
  | [] => []
  | m :: ms =>
    match seen.find? (·.text == m.text) with
    | some first => (m, first) :: repeats seen ms
    | none => repeats (seen ++ [m]) ms

/-- What there is to say about an enumeration. -/
def ofEnumeration (e : Enumeration) : List Diagnostic :=
  (if e.members = [] then [noMembers e] else []) ++
    (repeats [] e.members).map fun (again, first) => repeated e again first

/-- What there is to say about a group of lines. -/
def ofResult : Except GroupError Enumeration → List Diagnostic
  | .ok e => ofEnumeration e
  | .error fault => [skipped fault]

/-- There are warnings about an enumeration, but no errors. -/
theorem severity_of_mem_ofEnumeration {e : Enumeration} {d : Diagnostic} (h : d ∈ ofEnumeration e) :
    d.severity = .warning := by
  rcases List.mem_append.mp h with h | h
  · split at h
    · obtain rfl := List.mem_singleton.mp h
      rfl
    · cases h
  · obtain ⟨r, -, rfl⟩ := List.mem_map.mp h
    rfl

end Diagnostic

/-! ## Findings

What has been reported so far. `Findings` keeps the reports in the order in which they were made and counts the errors;
all others are warnings, whose number is the difference. So there may never be more errors than reports, and there are
not, by the type. Groups are reported on one after the other (`Findings.addResult`): a group that was skipped with an
error, any other with its warnings, if there are any.
-/

/-- Reports in the order in which they were made, and how many of them are errors. -/
structure Findings where
  reports : List Report
  errors : Nat
  errors_le : errors ≤ reports.length

namespace Findings

/-- Nothing has been reported. -/
def empty : Findings := ⟨[], 0, Nat.zero_le 0⟩

/-- Another error. -/
def addError (f : Findings) (r : Report) : Findings where
  reports := f.reports ++ [r]
  errors := f.errors + 1
  errors_le := by simpa using f.errors_le

/-- Another warning. -/
def addWarning (f : Findings) (r : Report) : Findings where
  reports := f.reports ++ [r]
  errors := f.errors
  errors_le := by
    rw [List.length_append]
    exact Nat.le_add_right_of_le f.errors_le

/-- Whether there is anything to show. -/
def hasAny (f : Findings) : Bool := !f.reports.isEmpty

theorem hasAny_iff {f : Findings} : f.hasAny = true ↔ f.reports ≠ [] := by
  simp [hasAny]

/-- How many reports are no errors. -/
def warnings (f : Findings) : Nat := f.reports.length - f.errors

theorem errors_add_warnings (f : Findings) : f.errors + f.warnings = f.reports.length :=
  Nat.add_sub_of_le f.errors_le

/-- Other warnings, one after the other. -/
def addWarnings (f : Findings) (ds : List Diagnostic) : Findings := ds.foldl (fun f d => f.addWarning d.report) f

/-- What there is to report on a group of lines. -/
def addResult (f : Findings) : Except GroupError Enumeration → Findings
  | .ok e => f.addWarnings (Diagnostic.ofEnumeration e)
  | .error fault => f.addError (Diagnostic.skipped fault).report

/-- Warnings are made behind all other reports, and are no errors. -/
theorem addWarnings_eq (f : Findings) (ds : List Diagnostic) :
    (f.addWarnings ds).reports = f.reports ++ ds.map Diagnostic.report ∧ (f.addWarnings ds).errors = f.errors := by
  induction ds generalizing f with
  | nil => exact ⟨(List.append_nil _).symm, rfl⟩
  | cons d ds ih =>
    obtain ⟨hreports, herrors⟩ := ih (f.addWarning d.report)
    constructor
    · rw [addWarnings, List.foldl_cons, ← addWarnings, hreports, List.map_cons]
      exact List.append_assoc ..
    · exact herrors

/-- The reports on a group are made behind all others. -/
theorem reports_addResult (f : Findings) (r : Except GroupError Enumeration) :
    (f.addResult r).reports = f.reports ++ (Diagnostic.ofResult r).map Diagnostic.report := by
  cases r with
  | ok e => exact (f.addWarnings_eq _).1
  | error fault => rfl

/-- All errors among the reports on a group are counted. -/
theorem errors_addResult (f : Findings) (r : Except GroupError Enumeration) :
    (f.addResult r).errors = f.errors + Diagnostic.errorCount (Diagnostic.ofResult r) := by
  cases r with
  | ok e =>
    have hnone : Diagnostic.errorCount (Diagnostic.ofEnumeration e) = 0 :=
      List.countP_eq_zero.mpr fun d hd => by simp [Diagnostic.severity_of_mem_ofEnumeration hd]
    rw [Diagnostic.ofResult, hnone]
    exact (f.addWarnings_eq _).2
  | error fault => rfl

end Findings

/-! ## What a source declares

A source is read group by group, and no group bears on another: a `Listing` holds what became of each group, in the
order of the source. The enumerations and the diagnostics are views of it. All groups are reported on in turn
(`Listing.findings`), and the numbers told at the end of a run are those of the reports.
-/

/-- What became of each group of a source. -/
structure Listing where
  source : Text
  results : List (Except GroupError Enumeration)

/-- The numbers told at the end of a run. -/
structure Summary where
  generated : Nat
  skipped : Nat
  warnings : Nat
deriving DecidableEq, Repr

namespace Listing

/-- Reads every group of a source. -/
def ofSource (src : Text) : Listing := ⟨src, (groups src).map Enumeration.ofGroup⟩

/-- The enumerations, in their order. -/
def enumerations (l : Listing) : List Enumeration := l.results.filterMap Except.toOption

/-- The diagnostics, in their order. -/
def diagnostics (l : Listing) : List Diagnostic := l.results.flatMap Diagnostic.ofResult

/-- The reports on all groups in their order, behind those that there are already. -/
def findings (l : Listing) (f : Findings := .empty) : Findings := l.results.foldl Findings.addResult f

/-- How many enumerations there are, and how many errors and warnings. -/
def summary (l : Listing) : Summary where
  generated := l.enumerations.length
  skipped := l.findings.errors
  warnings := l.findings.warnings

/-- The diagnostics are reported in their order, behind all that has been reported before. -/
theorem reports_findings (l : Listing) (f : Findings) :
    (l.findings f).reports = f.reports ++ l.diagnostics.map Diagnostic.report := by
  obtain ⟨source, results⟩ := l
  show (results.foldl Findings.addResult f).reports =
    f.reports ++ (results.flatMap Diagnostic.ofResult).map Diagnostic.report
  induction results generalizing f with
  | nil => simp
  | cons r results ih =>
    rw [List.foldl_cons, ih, Findings.reports_addResult, List.flatMap_cons, List.map_append, List.append_assoc]

/-- All errors among the diagnostics are counted. -/
theorem errors_findings (l : Listing) (f : Findings) :
    (l.findings f).errors = f.errors + Diagnostic.errorCount l.diagnostics := by
  obtain ⟨source, results⟩ := l
  show (results.foldl Findings.addResult f).errors =
    f.errors + Diagnostic.errorCount (results.flatMap Diagnostic.ofResult)
  induction results generalizing f with
  | nil => rfl
  | cons r results ih =>
    rw [List.foldl_cons, ih, Findings.errors_addResult, List.flatMap_cons, Diagnostic.errorCount,
      Diagnostic.errorCount, Diagnostic.errorCount, List.countP_append, Nat.add_assoc]

/-- All that is no error is a warning. -/
theorem warnings_findings (l : Listing) (f : Findings) :
    (l.findings f).warnings = f.warnings + Diagnostic.warningCount l.diagnostics := by
  have hbefore := f.errors_add_warnings
  have hafter := (l.findings f).errors_add_warnings
  have hadded := Diagnostic.errorCount_add_warningCount l.diagnostics
  rw [l.errors_findings f, l.reports_findings f, List.length_append, List.length_map] at hafter
  omega

end Listing

/-! ## Events

What a run tells about its progress, for those who listen: one event for each group, and one at the end. An event is a
list of named fields.
-/

/-- How much detail a listener has to ask for to be told. -/
inductive Level where
  | debug
  | info
deriving DecidableEq, Repr

/-- A step of a run. -/
inductive Event where
  /-- A group was read. -/
  | parsed (e : Enumeration)
  /-- A group was skipped. -/
  | skipped (fault : GroupError)
  /-- The conversions have been generated. -/
  | finished (summary : Summary)
deriving DecidableEq, Repr

/-- What a field of an event holds. -/
inductive FieldValue where
  | text (text : String)
  | names (names : List Text)
deriving DecidableEq, Repr

/-- The three numbers with their names. -/
def Summary.describe (s : Summary) : String :=
  "Summary \x7b generated: " ++ toString s.generated ++ ", skipped: " ++ toString s.skipped ++ ", warnings: " ++
    toString s.warnings ++ " \x7d"

namespace Event

/-- Groups are told in detail only, the end of a run is not. -/
def level : Event → Level
  | parsed _ | skipped _ => .debug
  | finished _ => .info

/-- The fields of an event with their names, `message` first. -/
def fields : Event → List (String × FieldValue)
  | parsed e =>
    [("message", .text "parsed enum"), ("name", .text (String.ofList e.name)),
      ("secondary", .text (String.ofList (snakeCase e.name))), ("members", .names e.memberNames)]
  | skipped fault => [("message", .text "skipping group"), ("error", .text fault.message)]
  | finished s => [("message", .text "generation finished"), ("summary", .text s.describe)]

/-- The event that tells what became of a group. -/
def ofResult : Except GroupError Enumeration → Event
  | .ok e => parsed e
  | .error fault => skipped fault

end Event

/-- The events of reading a source, in their order. -/
def Listing.events (l : Listing) : List Event := l.results.map Event.ofResult

end EnumStrings
