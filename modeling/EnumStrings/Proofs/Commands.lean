import EnumStrings.CommandLine
import EnumStrings.Proofs.Accounting
import EnumStrings.Proofs.DeclarationLine
import EnumStrings.Proofs.TrimmedLines
import EnumStrings.Proofs.Writing

/-!
# The commands agree

All commands on a file start with what comes of reading it. If it holds no text, they fail with one and the same message
(`enact_of_unread`). If it holds one, they print the reports on its groups (`remarksOn`), in whatever words, and then
what the command is about: a check, how many groups declare no enum, if there are any; a generation, how many do and how
many do not (`generated_add_skipped`). Only the exit code of a check depends on these numbers. The generated text goes
to standard output or to a file (`enact_generate`, `enact_generate_into`).

The numbers can be read on standard error: behind the styled word in front of a line all that is shown stays as it is
written (`Summary.plain_line`, `Failure.plain_malformed`).
-/

namespace EnumStrings

/-- A run of the program in a directory, and the directory that it leaves. -/
def Directory.enact (d : Directory) (w : Wording) (arguments : List Text) : Transcript × Directory :=
  ((program w arguments : StateM Directory Transcript).run d).run

/-- The groups of a source whose first line declares no enum. -/
def malformedGroups (src : Text) : List Group :=
  (groups src).filter fun g => Declaration.ofLine? g.declaration.text = none

/-- What is printed about the groups of a source: the reports on them in their order, as one message, if there are
any. -/
def remarksOn (w : Wording) (path src : Text) : List Message :=
  match (Listing.ofSource src).diagnostics with
  | [] => []
  | ds => [ds.flatMap fun d => w.report path src d.report]

/-- The line that tells what a generation has done. -/
def finishedLine (generated skipped warnings : Nat) : Text :=
  "Finished: generated ".toList ++ Nat.toDigits 10 generated ++ " enum(s), skipped ".toList ++
    Nat.toDigits 10 skipped ++ " group(s), ".toList ++ Nat.toDigits 10 warnings ++ " warning(s)\n".toList

/-- The line that tells why a check fails, as far as the path of the file. -/
def refusal (count : Nat) : Text := "Error: ".toList ++ Nat.toDigits 10 count ++ " group(s) in ".toList

/-- The file that a command reads. -/
def Command.input? : Command → Option Text
  | generate request => some request.input
  | check path => some path
  | version | help _ _ | completions _ => none

/-! ## Lines on standard error -/

section Lines

theorem toList_styled (codes word : String) :
    (styled codes word).toList = '\x1b' :: '[' :: (codes.toList ++ 'm' :: (word.toList ++ "\x1b[0m".toList)) := by
  simp [styled]

/-- Behind a styled word in front of a message all that is shown stays, up to the first control character. -/
theorem Message.plain_styled (codes word : String) {message : Message} {front back : Text}
    (hsize : byteLength (styled codes word).toList ≤ blockSize)
    (hstyle : ControlSequence.strip false .absent [] (styled codes word).toList = (.absent, word.toList.reverse))
    (hmessage : (message.map String.toList).flatten = front ++ back) (hfront : front.all isShown = true) :
    ∃ rest, Message.plain (styled codes word :: message) = word.toList ++ (front ++ rest) ∧
      (back.all isShown = true → rest = back) := by
  obtain ⟨rest, hplain, hrest⟩ :=
    withoutControls_blocks_cons hsize hstyle hmessage (List.all_eq_true.mp hfront)
  exact ⟨rest, hplain, fun hback => hrest (List.all_eq_true.mp hback)⟩

/-- A number is written in decimal digits. -/
theorem toList_toString (n : Nat) : (toString n).toList = Nat.toDigits 10 n := Nat.toList_repr

/-- Digits are shown. -/
theorem all_isShown_toDigits (n : Nat) : (Nat.toDigits 10 n).all isShown = true := by
  refine List.all_eq_true.mpr fun c hc => ?_
  have hdigit := Nat.isDigit_of_mem_toDigits (by decide) (by decide) hc
  obtain ⟨hlow, hhigh⟩ : '0' ≤ c ∧ c ≤ '9' := by
    simpa [Char.isDigit, Char.le_def] using hdigit
  have hspace : ' ' ≤ c := Char.le_trans (by decide) hlow
  have hdelete : c ≠ '\x7f' := by
    rintro rfl
    exact absurd hhigh (by decide)
  simp [isShown, hspace, hdelete]

/-- The words of a summary behind the first, whatever its numbers are. -/
theorem flatten_summary (generated skipped warnings : String) :
    ([" generated ", generated, " enum(s), skipped ", skipped, " group(s), ", warnings, " warning(s)", "\n"].map
      String.toList).flatten =
        " generated ".toList ++ generated.toList ++ " enum(s), skipped ".toList ++ skipped.toList ++
          " group(s), ".toList ++ warnings.toList ++ " warning(s)\n".toList := by
  simp

theorem flatten_refusal (count path : String) :
    ([" ", count, " group(s) in ", path, " do not start with an enum declaration", "\n"].map String.toList).flatten =
      " ".toList ++ count.toList ++ " group(s) in ".toList ++
        (path.toList ++ " do not start with an enum declaration\n".toList) := by
  simp

/-- The last line of a generation on standard error. -/
theorem Summary.plain_line (s : Summary) : s.line.plain = finishedLine s.generated s.skipped s.warnings := by
  have hmessage := flatten_summary (toString s.generated) (toString s.skipped) (toString s.warnings)
  rw [toList_toString, toList_toString, toList_toString, ← List.append_nil (_ ++ _)] at hmessage
  obtain ⟨rest, hplain, hrest⟩ := Message.plain_styled "32;1" "Finished:"
    (by rw [toList_styled]; decide) (by rw [toList_styled]; decide) hmessage
    (by simp only [List.all_append, all_isShown_toDigits, Bool.and_true]; decide)
  rw [hrest rfl, List.append_nil] at hplain
  exact hplain

/-- The last line of a check that fails on standard error. -/
theorem Failure.plain_malformed (path : Text) (count : Nat) :
    ∃ rest, (malformed path count).line.plain = refusal count ++ rest ∧
      (path.all isShown = true → rest = path ++ " do not start with an enum declaration\n".toList) := by
  have hmessage := flatten_refusal (toString count) (String.ofList path)
  rw [toList_toString, String.toList_ofList (l := path)] at hmessage
  obtain ⟨rest, hplain, hrest⟩ := Message.plain_styled "31" "Error:"
    (by rw [toList_styled]; decide) (by rw [toList_styled]; decide) hmessage
    (by simp only [List.all_append, all_isShown_toDigits, Bool.and_true]; decide)
  refine ⟨rest, ?_, fun hpath => hrest ?_⟩
  · rw [← List.append_assoc] at hplain
    exact hplain
  · rw [List.all_append, hpath, Bool.true_and]
    decide

end Lines

/-! ## Numbers -/

section Numbers

variable {src : Text} {g : Group}

/-- The groups that declare no enum are those that start with no declaration line. -/
theorem mem_malformedGroups_iff : g ∈ malformedGroups src ↔
    g ∈ groups src ∧ ∀ name searched, ¬ DeclarationLine name searched g.declaration.text := by
  rw [malformedGroups, List.mem_filter, decide_eq_true_eq]
  refine and_congr_right fun hg => ?_
  have hn : '\n' ∉ g.declaration.text := notMem_newline hg List.mem_cons_self
  constructor
  · intro hnone name searched h
    obtain ⟨d, hd, -⟩ := h.ofLine? hn
    rw [hnone] at hd
    cases hd
  · intro h
    cases hd : Declaration.ofLine? g.declaration.text with
    | none => rfl
    | some d => exact absurd (declarationLine_of_ofLine? hd hn) (h _ _)

/-- The skipped groups are those that declare no enum. -/
theorem skipped_ofSource (src : Text) : (Listing.ofSource src).summary.skipped = (malformedGroups src).length := by
  have herrors := (Listing.ofSource src).errors_findings .empty
  rw [errorCount_ofSource] at herrors
  simp only [Group.enumeration?_eq_none_iff] at herrors
  rw [malformedGroups, ← List.countP_eq_length_filter]
  exact herrors.trans (Nat.zero_add _)

/-- All other reports are warnings. -/
theorem warnings_ofSource (src : Text) :
    (Listing.ofSource src).summary.warnings = Diagnostic.warningCount (Listing.ofSource src).diagnostics :=
  ((Listing.ofSource src).warnings_findings .empty).trans (Nat.zero_add _)

/-- Every group is an enumeration or is skipped. -/
theorem generated_add_skipped (src : Text) : (Listing.ofSource src).summary.generated +
    (Listing.ofSource src).summary.skipped = (groups src).length := by
  rw [skipped_ofSource, malformedGroups, ← List.countP_eq_length_filter]
  simp only [← Group.enumeration?_eq_none_iff]
  exact length_enumerations_add src

end Numbers

/-! ## Runs -/

section Runs

variable {w : Wording} {d : Directory} {arguments : List Text} {path out src : Text} {place : List Text}
  {o : Options} {failure : Failure}

/-- The reports on a source are printed in their order. -/
theorem messages_findings (w : Wording) (path src : Text) :
    (if (Listing.ofSource src).findings.hasAny then
      [(Listing.ofSource src).findings.reports.flatMap (w.report path (Listing.ofSource src).source)] else []) =
        remarksOn w path src := by
  have hreports : (Listing.ofSource src).findings.reports = (Listing.ofSource src).diagnostics.map Diagnostic.report :=
    ((Listing.ofSource src).reports_findings .empty).trans (List.nil_append _)
  rw [Findings.hasAny, hreports, List.flatMap_map, remarksOn]
  cases (Listing.ofSource src).diagnostics with
  | nil => rfl
  | cons d ds => rfl

/-- What holds no text cannot be listed, for some fault. -/
theorem ofFile_eq_error (h : ¬ ∃ src, d.read path = .ok (toBytes src)) :
    ∃ fault, Listing.ofFile path (d.read path) = .error (.access path fault) := by
  cases hread : d.read path with
  | error fault => exact ⟨fault, rfl⟩
  | ok bytes =>
    cases htext : ofBytes? bytes with
    | none => exact ⟨.notText, by rw [Listing.ofFile, htext]⟩
    | some src => exact absurd ⟨src, by rw [hread, eq_toBytes_of_ofBytes? htext]⟩ h

/-- All commands on a file that cannot be read fail alike. -/
theorem enact_of_unread {command : Command} (hcommand : Command.ofTexts arguments = .ok command)
    (hinput : command.input? = some path) (h : Listing.ofFile path (d.read path) = .error failure) :
    d.enact w arguments = ({ exitCode := failure.exitCode, messages := [failure.line] }, d) := by
  cases command with
  | version | help topic long | completions shell => cases hinput
  | generate r =>
    obtain rfl := Option.some.inj hinput
    simp [Directory.enact, program, hcommand, Command.run, generate, load, FileStore.readFile, h, Transcript.ofOutcome,
      Findings.hasAny, Findings.empty]
  | check p =>
    obtain rfl := Option.some.inj hinput
    simp [Directory.enact, program, hcommand, Command.run, check, load, FileStore.readFile, h, Transcript.ofOutcome,
      Findings.hasAny, Findings.empty]

/-- A check fails if some group declares no enum, and tells how many do not. -/
theorem enact_check (hcommand : Command.ofTexts arguments = .ok (.check path)) (h : d.read path = .ok (toBytes src)) :
    d.enact w arguments =
      ({ exitCode := if malformedGroups src = [] then 0 else 1
         messages := remarksOn w path src ++ if malformedGroups src = [] then [] else
          [(Failure.malformed path (malformedGroups src).length).line] }, d) := by
  by_cases hnone : malformedGroups src = []
  · simp [Directory.enact, program, hcommand, Command.run, check, load, FileStore.readFile, h, Transcript.ofOutcome,
      Listing.ofFile_toBytes, skipped_ofSource, hnone, messages_findings]
  · simp [Directory.enact, program, hcommand, Command.run, check, load, FileStore.readFile, h, Transcript.ofOutcome,
      Listing.ofFile_toBytes, skipped_ofSource, hnone, messages_findings, Failure.exitCode]

/-- A generation without an output file prints the generated text. -/
theorem enact_generate (hcommand : Command.ofTexts arguments = .ok (.generate { input := path, options := o }))
    (h : d.read path = .ok (toBytes src)) :
    d.enact w arguments =
      ({ exitCode := 0
         output := generatedText o (Listing.ofSource src).enumerations
         messages := remarksOn w path src ++ [(Listing.ofSource src).summary.line] }, d) := by
  simp [Directory.enact, program, hcommand, Command.run, generate, load, FileStore.readFile, h, Transcript.ofOutcome,
    Listing.ofFile_toBytes, messages_findings]

/-- A generation with an output file prints no text, and the file holds it. -/
theorem enact_generate_into
    (hcommand : Command.ofTexts arguments = .ok (.generate { input := path, output? := some out, options := o }))
    (h : d.read path = .ok (toBytes src)) (htarget : d.target out = .ok place) :
    d.enact w arguments =
      ({ exitCode := 0
         messages := remarksOn w path src ++ [(Listing.ofSource src).summary.line] },
        d.put place (.file (toBytes (generatedText o (Listing.ofSource src).enumerations)))) := by
  simp [Directory.enact, program, hcommand, Command.run, generate, load, FileStore.readFile, FileStore.writeFile, h,
    Transcript.ofOutcome, Listing.ofFile_toBytes, messages_findings, write_of_target htarget]

/-- A file holds one text at most. -/
theorem text_unique {src' : Text} (h : d.read path = .ok (toBytes src)) (h' : d.read path = .ok (toBytes src')) :
    src = src' := by
  have hbytes : toBytes src = toBytes src' := Except.ok.inj (h.symm.trans h')
  exact Option.some.inj (by rw [← ofBytes?_toBytes src, hbytes, ofBytes?_toBytes])

/-- A check changes nothing and prints no text. -/
theorem enact_check_silent (hcheck : Command.ofTexts arguments = .ok (.check path)) :
    (d.enact w arguments).2 = d ∧ (d.enact w arguments).1.output = [] := by
  by_cases hread : ∃ src, d.read path = .ok (toBytes src)
  · obtain ⟨src, hread⟩ := hread
    rw [enact_check hcheck hread]
    exact ⟨rfl, rfl⟩
  · obtain ⟨fault, hfault⟩ := ofFile_eq_error hread
    rw [enact_of_unread hcheck rfl hfault]
    exact ⟨rfl, rfl⟩

/-- The exit code of a check tells whether the file holds a text, and whether all its groups declare enums. -/
theorem exitCode_check (hcheck : Command.ofTexts arguments = .ok (.check path)) :
    ((d.enact w arguments).1.exitCode = 3 ↔ ¬ ∃ src, d.read path = .ok (toBytes src)) ∧
    ((d.enact w arguments).1.exitCode = 1 ↔ ∃ src, d.read path = .ok (toBytes src) ∧ malformedGroups src ≠ []) ∧
    ((d.enact w arguments).1.exitCode = 0 ↔ ∃ src, d.read path = .ok (toBytes src) ∧ malformedGroups src = []) := by
  by_cases hread : ∃ src, d.read path = .ok (toBytes src)
  · obtain ⟨src, hread⟩ := hread
    have honly : ∀ src', d.read path = .ok (toBytes src') ↔ src' = src :=
      fun src' => ⟨fun h => text_unique h hread, fun h => h ▸ hread⟩
    simp only [enact_check hcheck hread, honly, exists_eq, exists_eq_left, not_true_eq_false]
    by_cases hnone : malformedGroups src = []
    · simp [hnone]
    · simp [hnone]
  · obtain ⟨fault, hfault⟩ := ofFile_eq_error hread
    have hcode : (d.enact w arguments).1.exitCode = 3 := by rw [enact_of_unread hcheck rfl hfault]; rfl
    rw [hcode]
    refine ⟨iff_of_true rfl hread, iff_of_false (by decide) ?_, iff_of_false (by decide) ?_⟩
    · exact fun ⟨src, h, _⟩ => hread ⟨src, h⟩
    · exact fun ⟨src, h, _⟩ => hread ⟨src, h⟩

/-- A generation on standard output fails only if the file holds no text, and changes nothing. -/
theorem exitCode_generate
    (hgenerate : Command.ofTexts arguments = .ok (.generate { input := path, options := o })) :
    (d.enact w arguments).2 = d ∧
    ((d.enact w arguments).1.exitCode = 3 ↔ ¬ ∃ src, d.read path = .ok (toBytes src)) ∧
    ((d.enact w arguments).1.exitCode = 0 ↔ ∃ src, d.read path = .ok (toBytes src)) := by
  by_cases hread : ∃ src, d.read path = .ok (toBytes src)
  · obtain ⟨src, h⟩ := hread
    have hcode : (d.enact w arguments).1.exitCode = 0 := by rw [enact_generate hgenerate h]
    rw [hcode, enact_generate hgenerate h]
    exact ⟨rfl, iff_of_false (by decide) (not_not_intro ⟨src, h⟩), iff_of_true rfl ⟨src, h⟩⟩
  · obtain ⟨fault, hfault⟩ := ofFile_eq_error hread
    have hcode : (d.enact w arguments).1.exitCode = 3 := by rw [enact_of_unread hgenerate rfl hfault]; rfl
    rw [hcode, enact_of_unread hgenerate rfl hfault]
    exact ⟨rfl, iff_of_true rfl hread, iff_of_false (by decide) hread⟩

/-- With an output file that can be written, a generation does what it does without one, but for where the text goes. -/
theorem enact_generate_into_agrees {generating : List Text}
    (hgenerate : Command.ofTexts generating = .ok (.generate { input := path, options := o }))
    (hwrite : Command.ofTexts arguments = .ok (.generate { input := path, output? := some out, options := o }))
    (htarget : d.target out = .ok place) :
    (d.enact w arguments).1 = { (d.enact w generating).1 with output := [] } ∧
      ((¬ ∃ src, d.read path = .ok (toBytes src)) → (d.enact w arguments).2 = d) ∧
      ((∃ src, d.read path = .ok (toBytes src)) →
        (d.enact w arguments).2 = d.put place (.file (toBytes (d.enact w generating).1.output)) ∧
        (d.enact w arguments).2.read out = .ok (toBytes (d.enact w generating).1.output)) := by
  by_cases hread : ∃ src, d.read path = .ok (toBytes src)
  · obtain ⟨src, h⟩ := hread
    obtain ⟨hpath, hplace⟩ := Directory.locate_of_target htarget
    rw [enact_generate hgenerate h, enact_generate_into hwrite h htarget]
    exact ⟨rfl, fun hnot => absurd ⟨src, h⟩ hnot, fun _ => ⟨rfl, Directory.read_put_self hplace hpath⟩⟩
  · obtain ⟨fault, hfault⟩ := ofFile_eq_error hread
    rw [enact_of_unread hgenerate rfl hfault, enact_of_unread hwrite rfl hfault]
    exact ⟨rfl, fun _ => rfl, fun h => absurd h hread⟩

/-- What is printed about a file that holds a text: the same reports by a check and a generation, then the numbers. -/
theorem messages_agree {checking generating : List Text} (hcheck : Command.ofTexts checking = .ok (.check path))
    (hgenerate : Command.ofTexts generating = .ok (.generate { input := path, options := o }))
    (h : d.read path = .ok (toBytes src)) : ∃ generated rest,
      generated + (malformedGroups src).length = (groups src).length ∧
      (d.enact w generating).1.messages = remarksOn w path src ++
        [Summary.line ⟨generated, (malformedGroups src).length,
          Diagnostic.warningCount (Listing.ofSource src).diagnostics⟩] ∧
      (d.enact w checking).1.messages = remarksOn w path src ++
        (if malformedGroups src = [] then [] else [(Failure.malformed path (malformedGroups src).length).line]) ∧
      (d.enact w generating).1.errors = (remarksOn w path src).flatMap Message.plain ++
        finishedLine generated (malformedGroups src).length
          (Diagnostic.warningCount (Listing.ofSource src).diagnostics) ∧
      (d.enact w checking).1.errors = (remarksOn w path src).flatMap Message.plain ++
        (if malformedGroups src = [] then [] else refusal (malformedGroups src).length ++ rest) ∧
      (path.all isShown = true → rest = path ++ " do not start with an enum declaration\n".toList) := by
  obtain ⟨rest, hrefusal, hrest⟩ := Failure.plain_malformed path (malformedGroups src).length
  refine ⟨(Listing.ofSource src).summary.generated, rest, ?_, ?_, ?_, ?_, ?_, hrest⟩
  · rw [← skipped_ofSource]
    exact generated_add_skipped src
  · rw [enact_generate hgenerate h, ← skipped_ofSource, ← warnings_ofSource]
  · rw [enact_check hcheck h]
  · rw [enact_generate hgenerate h, ← skipped_ofSource, ← warnings_ofSource, ← Summary.plain_line]
    simp [Transcript.errors]
  · rw [enact_check hcheck h, ← hrefusal]
    by_cases hnone : malformedGroups src = []
    · simp [Transcript.errors, hnone]
    · simp [Transcript.errors, hnone]

/-- **The commands agree on every file**: they fail on the same unreadable files, print the same reports on all others,
and tell the same number of malformed groups. -/
theorem commands_agree {checking generating : List Text} (hcheck : Command.ofTexts checking = .ok (.check path))
    (hgenerate : Command.ofTexts generating = .ok (.generate { input := path, options := o })) :
    ((d.enact w checking).2 = d ∧ (d.enact w checking).1.output = [] ∧ (d.enact w generating).2 = d) ∧
    ((d.enact w checking).1.exitCode = 3 ↔ ¬ ∃ src, d.read path = .ok (toBytes src)) ∧
    ((d.enact w checking).1.exitCode = 1 ↔ ∃ src, d.read path = .ok (toBytes src) ∧ malformedGroups src ≠ []) ∧
    ((d.enact w checking).1.exitCode = 0 ↔ ∃ src, d.read path = .ok (toBytes src) ∧ malformedGroups src = []) ∧
    (∀ src g, g ∈ malformedGroups src ↔
      g ∈ groups src ∧ ∀ name searched, ¬ DeclarationLine name searched g.declaration.text) ∧
    ((d.enact w generating).1.exitCode = 3 ↔ ¬ ∃ src, d.read path = .ok (toBytes src)) ∧
    ((d.enact w generating).1.exitCode = 0 ↔ ∃ src, d.read path = .ok (toBytes src)) ∧
    ((¬ ∃ src, d.read path = .ok (toBytes src)) → (d.enact w generating).1 = (d.enact w checking).1) ∧
    (∀ src, d.read path = .ok (toBytes src) → ∃ generated rest,
        generated + (malformedGroups src).length = (groups src).length ∧
        (d.enact w generating).1.messages = remarksOn w path src ++
          [Summary.line ⟨generated, (malformedGroups src).length,
            Diagnostic.warningCount (Listing.ofSource src).diagnostics⟩] ∧
        (d.enact w checking).1.messages = remarksOn w path src ++
          (if malformedGroups src = [] then [] else [(Failure.malformed path (malformedGroups src).length).line]) ∧
        (d.enact w generating).1.errors = (remarksOn w path src).flatMap Message.plain ++
          finishedLine generated (malformedGroups src).length
            (Diagnostic.warningCount (Listing.ofSource src).diagnostics) ∧
        (d.enact w checking).1.errors = (remarksOn w path src).flatMap Message.plain ++
          (if malformedGroups src = [] then [] else refusal (malformedGroups src).length ++ rest) ∧
        (path.all isShown = true → rest = path ++ " do not start with an enum declaration\n".toList)) ∧
    ∀ writing out place,
      Command.ofTexts writing = .ok (.generate { input := path, output? := some out, options := o }) →
      d.target out = .ok place →
      (d.enact w writing).1 = { (d.enact w generating).1 with output := [] } ∧
      ((¬ ∃ src, d.read path = .ok (toBytes src)) → (d.enact w writing).2 = d) ∧
      ((∃ src, d.read path = .ok (toBytes src)) →
        (d.enact w writing).2 = d.put place (.file (toBytes (d.enact w generating).1.output)) ∧
        (d.enact w writing).2.read out = .ok (toBytes (d.enact w generating).1.output)) := by
  obtain ⟨hsame, hsilent⟩ := enact_check_silent (w := w) (d := d) hcheck
  obtain ⟨hsame', hunread, hdone⟩ := exitCode_generate (w := w) (d := d) hgenerate
  obtain ⟨hcheck3, hcheck1, hcheck0⟩ := exitCode_check (w := w) (d := d) hcheck
  refine ⟨⟨hsame, hsilent, hsame'⟩, hcheck3, hcheck1, hcheck0, fun _ _ => mem_malformedGroups_iff, hunread, hdone,
    ?_, fun _ hread => messages_agree hcheck hgenerate hread,
    fun _ _ _ hwrite htarget => enact_generate_into_agrees hgenerate hwrite htarget⟩
  intro hread
  obtain ⟨fault, hfault⟩ := ofFile_eq_error hread
  rw [enact_of_unread hcheck rfl hfault, enact_of_unread hgenerate rfl hfault]

end Runs

/-! ## Arguments -/

section Arguments

variable {path out : Text}

/-- The arguments behind the name of a command are read by the command. -/
theorem ofTexts_cons {name : Text} {verb : Verb} (h : (name, verb) ∈ Verb.names) (arguments : List Text) :
    Command.ofTexts (name :: arguments) = Command.ofVerb verb arguments := by
  simp only [Verb.names, List.mem_cons, Prod.mk.injEq, List.not_mem_nil, or_false] at h
  rcases h with ⟨rfl, rfl⟩ | ⟨rfl, rfl⟩ | ⟨rfl, rfl⟩ <;> rfl

/-- Behind two dashes all arguments are operands. -/
theorem read_dashes (form : Form) (found : List Argument) (arguments : List Text) :
    form.read found ("--".toList :: arguments) =
      arguments.foldlM (fun found text => form.accept found (.operand text)) found := by
  rw [Form.read]
  exact if_pos (by decide)

/-- Every path with a character is accepted, also one that looks like an option. -/
theorem accept_path (form : Form) (found : List Argument) (hform : form.faultOf = Verb.pathFault)
    (hroom : (Argument.operands found).length < form.operands) (hpath : path ≠ []) :
    form.accept found (.operand path) = .ok (found ++ [.operand path]) := by
  simp [Form.accept, hform, Verb.pathFault, hpath, Nat.not_le.mpr hroom]

/-- A command takes one path if it takes any. -/
theorem read_path {form : Form} (hform : form.faultOf = Verb.pathFault) (hroom : 0 < form.operands)
    (hpath : path ≠ []) : form.read [] ["--".toList, path] = .ok [.operand path] := by
  rw [read_dashes, List.foldlM_cons, accept_path form [] hform hroom hpath]
  rfl

theorem ofTexts_check (hpath : path ≠ []) :
    Command.ofTexts ["check".toList, "--".toList, path] = .ok (.check path) := by
  rw [ofTexts_cons (show ("check".toList, Verb.check) ∈ Verb.names by decide), Command.ofVerb,
    read_path rfl Nat.one_pos hpath]
  rfl

theorem ofTexts_generate (hpath : path ≠ []) :
    Command.ofTexts ["generate".toList, "--".toList, path] = .ok (.generate { input := path }) := by
  rw [ofTexts_cons (show ("generate".toList, Verb.generate) ∈ Verb.names by decide), Command.ofVerb,
    read_path rfl Nat.two_pos hpath]
  rfl

theorem ofTexts_generate_into (hpath : path ≠ []) (hout : out ≠ []) :
    Command.ofTexts ["generate".toList, "--".toList, path, out] =
      .ok (.generate { input := path, output? := some out }) := by
  have hread : Verb.generate.form.read [] ["--".toList, path, out] = .ok [.operand path, .operand out] := by
    have hsecond : Verb.generate.form.accept [.operand path] (.operand out) = _ :=
      accept_path Verb.generate.form [.operand path] rfl Nat.one_lt_two hout
    rw [read_dashes, List.foldlM_cons, accept_path Verb.generate.form [] rfl Nat.two_pos hpath]
    show Verb.generate.form.accept [.operand path] (.operand out) >>= pure = _
    rw [hsecond]
    rfl
  rw [ofTexts_cons (show ("generate".toList, Verb.generate) ∈ Verb.names by decide), Command.ofVerb, hread]
  rfl

end Arguments

/-- A directory with a file of a single line, which declares no enum; the file is named like an option. -/
def strayDirectory : Directory := ⟨[(["-s".toList], .file (toBytes "enum".toList))]⟩

/-- A check of the file fails, a generation does not, and its input may be its output. -/
theorem commands_agree_stray : malformedGroups "enum".toList = [⟨⟨"enum".toList, 0⟩, []⟩] ∧ ∀ w : Wording,
    let checked := strayDirectory.enact w ["check".toList, "--".toList, "-s".toList]
    let generated := strayDirectory.enact w ["generate".toList, "--".toList, "-s".toList]
    let remark := w.report "-s".toList "enum".toList (Diagnostic.skipped (.notADeclaration ⟨"enum".toList, 0⟩)).report
    checked.1.exitCode = 1 ∧ generated.1.exitCode = 0 ∧
      checked.1.errors =
        remark.plain ++ "Error: 1 group(s) in -s do not start with an enum declaration\n".toList ∧
      generated.1.errors =
        remark.plain ++ "Finished: generated 0 enum(s), skipped 1 group(s), 0 warning(s)\n".toList ∧
      (strayDirectory.enact w ["generate".toList, "--".toList, "-s".toList, "-s".toList]).2.read "-s".toList =
        .ok (toBytes generated.1.output) := by
  have hpath : "-s".toList ≠ [] := by decide
  have hread : strayDirectory.read "-s".toList = .ok (toBytes "enum".toList) := rfl
  have htarget : strayDirectory.target "-s".toList = .ok ["-s".toList] := rfl
  have hline : InLine "enum".toList := by
    have hall : "enum".toList.all (!isTerminator ·) = true := by decide
    simpa [InLine] using hall
  have hgroups : groups "enum".toList = [⟨⟨"enum".toList, 0⟩, []⟩] := by
    rw [groups, lines, terminatedLines_eq_singleton (by decide) hline]
    show Group.ofLines [⟨"enum".toList, 0⟩] = _
    rw [Group.ofLines, if_neg (by decide), List.dropWhile_nil, Group.ofLines]
    rfl
  have hmalformed : malformedGroups "enum".toList = [⟨⟨"enum".toList, 0⟩, []⟩] := by
    rw [malformedGroups, hgroups]
    decide
  have hdiagnostics : (Listing.ofSource "enum".toList).diagnostics =
      [.skipped (.notADeclaration ⟨"enum".toList, 0⟩)] := by
    rw [Listing.ofSource, hgroups]
    decide
  refine ⟨hmalformed, fun w => ?_⟩
  obtain ⟨-, -, hcheck, -, -, -, hgenerate, -, hmessages, hinto⟩ :=
    commands_agree (w := w) (d := strayDirectory) (ofTexts_check hpath) (ofTexts_generate hpath)
  have hholds : ∃ src, strayDirectory.read "-s".toList = .ok (toBytes src) := ⟨_, hread⟩
  obtain ⟨generated, rest, hcount, -, -, hfinished, hrefused, hrest⟩ := hmessages _ hread
  have hnone : generated = 0 := by
    rw [hmalformed, hgroups] at hcount
    exact Nat.add_right_cancel hcount
  have hremarks : remarksOn w "-s".toList "enum".toList =
      [w.report "-s".toList "enum".toList (Diagnostic.skipped (.notADeclaration ⟨"enum".toList, 0⟩)).report] := by
    rw [remarksOn, hdiagnostics]
    exact congrArg (fun m => [m]) (List.append_nil _)
  refine ⟨hcheck.mpr ⟨_, hread, ?_⟩, hgenerate.mpr hholds, ?_, ?_, ?_⟩
  · rw [hmalformed]
    exact List.cons_ne_nil _ _
  · rw [hrefused, hremarks, List.flatMap_singleton, hmalformed, if_neg (List.cons_ne_nil _ _), hrest (by decide)]
    rfl
  · rw [hfinished, hremarks, List.flatMap_singleton, hnone, hmalformed, hdiagnostics]
    rfl
  · exact ((hinto _ _ _ (ofTexts_generate_into hpath hpath) htarget).2.2 hholds).2

end EnumStrings
