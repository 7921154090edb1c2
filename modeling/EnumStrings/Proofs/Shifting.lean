import EnumStrings.Conversion
import EnumStrings.Diagnostic

/-!
# Moving a source

Nothing but places depends on where a text stands in its source. What is read from excerpts that are moved by `n` bytes
is what is read from the excerpts themselves, moved by `n` bytes: groups (`ofLines_shift`), enumerations and faults
(`ofGroup_shift`) and diagnostics (`ofResult_shift`). Events and generated text tell no places and stay as they are
(`told_shift`, `generatedText_shift`).
-/

namespace EnumStrings

/-! ## What is moved -/

def Span.shift (n : Nat) (s : Span) : Span := ⟨s.start + n, s.stop + n⟩

def Excerpt.shift (n : Nat) (e : Excerpt) : Excerpt := { e with start := e.start + n }

def Group.shift (n : Nat) (g : Group) : Group := ⟨g.declaration.shift n, g.body.map (·.shift n)⟩

def Enumeration.shift (n : Nat) (e : Enumeration) : Enumeration :=
  { e with members := e.members.map (·.shift n), span := e.span.shift n }

def GroupError.shift (n : Nat) : GroupError → GroupError
  | notADeclaration line => notADeclaration (line.shift n)

def Label.shift (n : Nat) (l : Label) : Label := { l with span := l.span.shift n }

def Diagnostic.shift (n : Nat) : Diagnostic → Diagnostic
  | skipped fault => skipped (fault.shift n)
  | noMembers e => noMembers (e.shift n)
  | repeated e again first => repeated (e.shift n) (again.shift n) (first.shift n)

def Report.shift (n : Nat) (r : Report) : Report :=
  { r with span := r.span.shift n, labels := r.labels.map (·.shift n) }

/-- What became of a group that is moved. -/
def shiftResult (n : Nat) : Except GroupError Enumeration → Except GroupError Enumeration
  | .ok e => .ok (e.shift n)
  | .error fault => .error (fault.shift n)

section Views

variable (n : Nat)

@[simp] theorem Excerpt.text_shift (e : Excerpt) : (e.shift n).text = e.text := rfl

@[simp] theorem Excerpt.isBlank_shift (e : Excerpt) : (e.shift n).isBlank = e.isBlank := rfl

@[simp] theorem Excerpt.span_shift (e : Excerpt) : (e.shift n).span = e.span.shift n := by
  simp only [span, shift, Span.shift]
  congr 1
  omega

@[simp] theorem GroupError.span_shift (e : GroupError) : (e.shift n).span = e.span.shift n := by
  cases e
  exact Excerpt.span_shift n _

@[simp] theorem GroupError.message_shift (e : GroupError) : (e.shift n).message = e.message := by
  cases e
  rfl

@[simp] theorem Enumeration.memberNames_shift (e : Enumeration) : (e.shift n).memberNames = e.memberNames := by
  simp [memberNames, shift, Function.comp_def]

/-- The same is told about a place that is moved, and the remarks are moved with it. -/
theorem Diagnostic.report_shift (d : Diagnostic) : (d.shift n).report = d.report.shift n := by
  cases d with
  | skipped fault =>
    simp [report, Report.shift, shift, severity, message, span, labels, Label.shift]
  | noMembers e => rfl
  | repeated e again first =>
    simp only [report, Report.shift, shift, severity, message, span, labels, Label.shift, Excerpt.span_shift,
      Excerpt.text_shift, List.map_cons, List.map_nil]
    rfl

end Views

/-! ## Lines and groups -/

section Groups

variable {n : Nat}

theorem Excerpt.place_shift (start : Nat) (parts : List (Text × Text)) :
    place (start + n) parts = (place start parts).map (·.shift n) := by
  induction parts generalizing start with
  | nil => rfl
  | cons p parts ih =>
    have hnext : start + n + byteLength p.1 + byteLength p.2 = start + byteLength p.1 + byteLength p.2 + n := by omega
    rw [place, place, hnext, ih]
    rfl

/-- Lines that are moved make up groups that are moved. -/
theorem Group.ofLines_shift (ls : List Excerpt) :
    ofLines (ls.map (·.shift n)) = (ofLines ls).map (·.shift n) := by
  fun_induction ofLines ls with
  | case1 => simp [ofLines]
  | case2 l ls h ih => rw [List.map_cons, ofLines, Excerpt.isBlank_shift, if_pos h, ih]
  | case3 l ls h ih =>
    rw [List.map_cons, ofLines, Excerpt.isBlank_shift, if_neg h, List.takeWhile_map, List.dropWhile_map, List.map_cons,
      ← ih]
    rfl

theorem Group.span_shift (g : Group) : (g.shift n).span = g.span.shift n := by
  have hlast : ((g.body.map (·.shift n)).getLast?.getD (g.declaration.shift n)).span.stop =
      (g.body.getLast?.getD g.declaration).span.stop + n := by
    rw [List.getLast?_map]
    cases g.body.getLast? with
    | none => rw [Option.map_none, Option.getD_none, Option.getD_none, Excerpt.span_shift]; rfl
    | some l => rw [Option.map_some, Option.getD_some, Option.getD_some, Excerpt.span_shift]; rfl
  rw [span, shift, hlast]
  rfl

end Groups

/-! ## Enumerations -/

section Enumerations

variable {n : Nat}

theorem enumerator?_shift (e : Excerpt) : enumerator? (e.shift n) = (enumerator? e).map (·.shift n) := by
  dsimp only [enumerator?, Excerpt.shift]
  split
  · rw [Option.map_some, Nat.add_right_comm]
  · rfl

theorem filterMap_enumerator?_shift (es : List Excerpt) :
    (es.map (·.shift n)).filterMap enumerator? = (es.filterMap enumerator?).map (·.shift n) := by
  have hcomp : enumerator? ∘ (·.shift n) = fun e => (enumerator? e).map (·.shift n) := funext enumerator?_shift
  rw [List.filterMap_map, List.map_filterMap, hcomp]

theorem Group.candidates_shift (g : Group) (d : Declaration) :
    (g.shift n).candidates d = (g.candidates d).map (·.shift n) := by
  cases h : d.body with
  | none => simp only [candidates, h, shift]
  | some body =>
    have hstart : g.declaration.start + n + body.start = g.declaration.start + body.start + n := by omega
    simp only [candidates, h, shift, Excerpt.pieces, Excerpt.shift, hstart, Excerpt.place_shift, List.map_append]

/-- A group that is moved declares what it declared before, moved with it. -/
theorem Enumeration.ofGroup_shift (g : Group) : ofGroup (g.shift n) = shiftResult n (ofGroup g) := by
  unfold ofGroup
  rw [show (g.shift n).declaration = g.declaration.shift n from rfl, Excerpt.text_shift]
  split
  · rw [Group.candidates_shift, filterMap_enumerator?_shift, Group.span_shift]
    rfl
  · rfl

/-- Names are generated from, but no places. -/
theorem Conversion.ofEnumeration_congr (o : Options) {e e' : Enumeration} (hname : e.name = e'.name)
    (hmembers : e.memberNames = e'.memberNames) : ofEnumeration o e = ofEnumeration o e' := by
  rw [ofEnumeration, ofEnumeration, hname, hmembers]

theorem Conversion.ofEnumeration_shift (o : Options) (e : Enumeration) :
    ofEnumeration o (e.shift n) = ofEnumeration o e :=
  ofEnumeration_congr o rfl (e.memberNames_shift n)

theorem generatedText_shift (o : Options) (es : List Enumeration) :
    generatedText o (es.map (·.shift n)) = generatedText o es := by
  simp only [generatedText, List.flatMap_map, Conversion.ofEnumeration_shift]

end Enumerations

/-! ## Diagnostics and events -/

section Diagnostics

variable {n : Nat}

/-- The same members are repeated if they stand elsewhere. -/
theorem Diagnostic.repeats_map {f : Excerpt → Excerpt} (hf : ∀ e, (f e).text = e.text) (seen ms : List Excerpt) :
    repeats (seen.map f) (ms.map f) = (repeats seen ms).map fun (again, first) => (f again, f first) := by
  induction ms generalizing seen with
  | nil => rfl
  | cons m ms ih =>
    have hfind : (seen.map f).find? (·.text == (f m).text) = (seen.find? (·.text == m.text)).map f := by
      simp only [List.find?_map, Function.comp_def, hf]
    rw [List.map_cons, repeats, repeats, hfind]
    cases seen.find? (·.text == m.text) with
    | none =>
      have hseen : seen.map f ++ [f m] = (seen ++ [m]).map f := by simp
      simp only [Option.map_none, hseen, ih]
    | some first => simp only [Option.map_some, ih, List.map_cons]

theorem Diagnostic.ofEnumeration_shift (e : Enumeration) :
    ofEnumeration (e.shift n) = (ofEnumeration e).map (·.shift n) := by
  have hmembers : (e.shift n).members = e.members.map (·.shift n) := rfl
  have hrepeats := repeats_map (Excerpt.text_shift n) [] e.members
  rw [List.map_nil] at hrepeats
  rw [ofEnumeration, ofEnumeration, hmembers, hrepeats, List.map_append, List.map_map, List.map_map]
  congr 1
  cases e.members with
  | nil => rfl
  | cons m ms => rfl

/-- There is as much to say about a group that is moved as before, about places moved with it. -/
theorem Diagnostic.ofResult_shift (r : Except GroupError Enumeration) :
    ofResult (shiftResult n r) = (ofResult r).map (·.shift n) := by
  cases r with
  | ok e => exact ofEnumeration_shift e
  | error fault => rfl

/-- What a listener is told. -/
def Event.told (e : Event) : Level × List (String × FieldValue) := (e.level, e.fields)

theorem Event.told_shift (r : Except GroupError Enumeration) :
    (ofResult (shiftResult n r)).told = (ofResult r).told := by
  cases r with
  | ok e =>
    simp only [shiftResult, ofResult, told, fields, Enumeration.memberNames_shift]
    rfl
  | error fault => simp only [shiftResult, ofResult, told, fields, level, GroupError.message_shift]

end Diagnostics

end EnumStrings
