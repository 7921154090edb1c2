import EnumStrings.Conversion
import EnumStrings.Proofs.LineLayout

/-!
# The passages of generated text

The code of an enumeration is cut at its rules into titles and the lines under them, and each passage is found again
under its title (`linesUnder_generatedText`). No line of a passage is mistaken for a rule, whatever names and options
it is put together from, as long as these break no line (`Conversion.Unbroken`).
-/

namespace EnumStrings

/-! ## Reading sections -/

/-- What stands between rules: titles, each with the lines under it. -/
def titled : List (List Text) → List (Text × List Text)
  | [title] :: body :: rest => (title, body) :: titled rest
  | _ => []

/-- The lines of code under a title. -/
def linesUnder (title text : Text) : List Text :=
  ((titled ((codeLines text).splitOn bannerRule).tail).lookup title).getD []

/-- A title between two rules, and the lines under it. -/
def sectionLines (s : Text × List Text) : List Text := bannerRule :: s.1 :: bannerRule :: s.2

theorem splitOn_sections {front : List Text} {sections : List (Text × List Text)} (hf : bannerRule ∉ front)
    (hs : ∀ s ∈ sections, s.1 ≠ bannerRule ∧ bannerRule ∉ s.2) :
    (front ++ sections.flatMap sectionLines).splitOn bannerRule = front :: sections.flatMap fun s => [[s.1], s.2] := by
  induction sections generalizing front with
  | nil => rw [List.flatMap_nil, List.append_nil, List.splitOn_eq_singleton hf, List.flatMap_nil]
  | cons s sections ih =>
    obtain ⟨⟨htitle, hbody⟩, hothers⟩ := List.forall_mem_cons.mp hs
    have htitle : bannerRule ∉ [s.1] := fun h => htitle (List.mem_singleton.mp h).symm
    have hrest := List.splitOn_append_cons_self_of_not_mem htitle (s.2 ++ sections.flatMap sectionLines)
    rw [List.singleton_append, ih hbody hothers] at hrest
    rw [List.flatMap_cons, sectionLines, List.cons_append, List.cons_append, List.cons_append,
      List.splitOn_append_cons_self_of_not_mem hf, hrest]
    rfl

theorem titled_flatMap (sections : List (Text × List Text)) :
    titled (sections.flatMap fun s => [[s.1], s.2]) = sections := by
  induction sections with
  | nil => rfl
  | cons s sections ih => simpa [titled] using ih

/-! ## Lines that are no rules -/

section Lines

variable {s t : Text}

/-- No line ends within the text. -/
def Unbroken (s : Text) : Prop := '\n' ∉ s

instance (s : Text) : Decidable (Unbroken s) := inferInstanceAs (Decidable ('\n' ∉ s))

theorem unbroken_append : Unbroken (s ++ t) ↔ Unbroken s ∧ Unbroken t := by
  simp [Unbroken]

/-- The text is one line, with a character in it that is in no rule and no indentation. -/
def IsCode (s : Text) : Prop := Unbroken s ∧ ∃ c ∈ s, c ≠ '\t' ∧ c ≠ '='

instance (s : Text) : Decidable (IsCode s) :=
  @instDecidableAnd _ _ inferInstance (List.decidableBEx (fun c => c ≠ '\t' ∧ c ≠ '=') s)

theorem IsCode.append (hs : Unbroken s) (ht : IsCode t) : IsCode (s ++ t) := by
  obtain ⟨hbreak, c, hc, hcode⟩ := ht
  exact ⟨unbroken_append.mpr ⟨hs, hbreak⟩, c, List.mem_append_right s hc, hcode⟩

theorem mem_unindent {c : Char} (hs : c ∈ s) (hc : c ≠ '\t') : c ∈ unindent s := by
  rw [← List.takeWhile_append_dropWhile (p := (· == '\t')) (l := s)] at hs
  rcases List.mem_append.mp hs with h | h
  · have := List.all_eq_true.mp List.all_takeWhile c h
    exact absurd (by simpa using this) hc
  · exact h

/-- Such a text is a line of code, and it is no rule. -/
theorem IsCode.codeLines (h : IsCode s) : codeLines s = [unindent s] := by
  obtain ⟨hbreak, c, hc, htab, -⟩ := h
  exact codeLines_eq_singleton hbreak (List.ne_nil_of_mem (mem_unindent hc htab))

theorem IsCode.ne_bannerRule (h : IsCode s) : unindent s ≠ bannerRule := by
  obtain ⟨-, c, hc, htab, hrule⟩ := h
  intro heq
  have hmem : c ∈ bannerRule := heq ▸ mem_unindent hc htab
  have hall : bannerRule.all (· == '=') = true := by decide
  exact hrule (beq_iff_eq.mp (List.all_eq_true.mp hall c hmem))

end Lines

/-! ## Names that break no line -/

/-- A number is the code point of its character, if it has one. -/
theorem toNat_ofNat (n : Nat) : (Char.ofNat n).toNat = n ∨ (Char.ofNat n).toNat = 0 := by
  by_cases h : n.isValidChar
  · exact Or.inl (congrArg Char.toNat (dif_pos h))
  · exact Or.inr (congrArg Char.toNat (dif_neg h))

/-- No line ends within a small letter. -/
theorem unbroken_toLower {c : Char} (hc : c ≠ '\n') : Unbroken (toLower c) := by
  have hruns : ∀ r ∈ lowerRuns, 10 < (r.1.first : Int) + r.2 := by decide +kernel
  unfold toLower
  split
  · decide
  · split
    · rename_i run distance hfind
      have hrun := hruns _ (List.mem_of_find?_eq_some hfind)
      have hfirst : run.first ≤ c.toNat := by
        have hcontains := List.find?_some hfind
        simp only [CodeRun.contains, Bool.and_eq_true, decide_eq_true_eq] at hcontains
        exact hcontains.1.1
      intro h
      have hletter := congrArg Char.toNat (List.mem_singleton.mp h)
      rcases toNat_ofNat (c.toNat + distance).toNat with hn | hn
      · rw [hn] at hletter
        change 10 = (c.toNat + distance).toNat at hletter
        dsimp only at hrun
        omega
      · rw [hn] at hletter
        cases hletter
    · intro h
      exact hc (List.mem_singleton.mp h).symm

/-- No line ends within the name of a function made from a name without line ends. -/
theorem unbroken_snakeCase {s : Text} (hs : Unbroken s) : Unbroken (snakeCase s) := by
  cases s with
  | nil => exact hs
  | cons c s =>
    obtain ⟨hc, hs⟩ := not_or.mp (mt List.mem_cons.mpr hs)
    refine unbroken_append.mpr ⟨unbroken_toLower (Ne.symm hc), ?_⟩
    intro h
    obtain ⟨d, hd, hletter⟩ := List.mem_flatMap.mp h
    have hne : d ≠ '\n' := fun heq => hs (heq ▸ hd)
    unfold snakeLetter at hletter
    split at hletter
    · rcases List.mem_cons.mp hletter with h | h
      · exact absurd h (by decide)
      · exact unbroken_toLower hne h
    · exact unbroken_toLower hne hletter

/-! ## The passages -/

namespace Conversion

/-- No line ends within the texts that the generated functions are put together from. -/
structure Unbroken (c : Conversion) (o : Options) : Prop where
  name : EnumStrings.Unbroken c.name
  functionName : EnumStrings.Unbroken c.functionName
  cases : ∀ p ∈ c.cases, EnumStrings.Unbroken p.1 ∧ EnumStrings.Unbroken p.2
  scope : EnumStrings.Unbroken (qualifier o.scope)
  parseScope : EnumStrings.Unbroken (qualifier o.parseScope)
  stringType : EnumStrings.Unbroken o.stringType
  boolType : EnumStrings.Unbroken o.boolType

variable {c : Conversion} {o : Options}

theorem isCode_caseLine (h : c.Unbroken o) {p : Text × Text} (hp : p ∈ c.cases) :
    IsCode (c.caseLine p.1 p.2) ∧ IsCode (c.matchLine p.1 p.2) := by
  obtain ⟨hmember, htext⟩ := h.cases p hp
  have hname := h.name
  constructor
  · refine .append ?_ (by decide)
    simp only [unbroken_append, hname, hmember, htext, and_true]
    decide
  · refine .append ?_ (by decide)
    simp only [unbroken_append, hname, hmember, htext, and_true]
    decide

theorem isCode_tryParameters (h : c.Unbroken o) : IsCode (c.tryParameters o) := by
  refine .append ?_ (by decide)
  simp only [unbroken_append, h.name, h.stringType, and_true]
  decide

/-- Every line of a passage is a line of code and no rule. -/
theorem isCode_of_mem_body (h : c.Unbroken o) (p : Passage) :
    ∀ t ∈ (c.body o p).flatMap Step.lineTexts, IsCode t := by
  have htry := isCode_tryParameters h
  have hcases := fun {q : Text × Text} (hq : q ∈ c.cases) => isCode_caseLine h hq
  obtain ⟨hname, hfunction, -, hscope, hparse, hstring, hbool⟩ := h
  have htemplate : IsCode "template<>".toList := by decide
  have hopen : IsCode ['{'] := by decide
  have hclose : IsCode ['}'] := by decide
  cases p with
  | toStringHeader =>
    simp only [body, templateLine, List.flatMap_cons, List.flatMap_nil, Step.lineTexts, List.cons_append,
      List.nil_append, List.forall_mem_cons]
    refine ⟨.append ?_ (by decide), htemplate, .append ?_ (by decide), hopen, by decide, hclose, by simp⟩
    · simp only [unbroken_append, hname, hstring, and_true]
      decide
    · simp only [unbroken_append, hname, hstring, and_true]
      decide
  | toStringSource =>
    simp only [body, List.flatMap_append, List.flatMap_cons, List.flatMap_nil, Step.lineTexts, List.cons_append,
      List.nil_append, List.forall_mem_append, List.forall_mem_cons]
    refine ⟨.append ?_ (by decide), hopen, by decide, hopen, ?_, by decide, hclose, hclose, by simp⟩
    · simp only [unbroken_append, hname, hstring, hscope, and_true]
      decide
    · intro t ht
      rw [Step.flatMap_lineTexts_line] at ht
      obtain ⟨q, hq, rfl⟩ := List.mem_map.mp ht
      exact (hcases hq).1
  | parseHeader =>
    simp only [body, templateLine, List.flatMap_cons, List.flatMap_nil, Step.lineTexts, List.cons_append,
      List.nil_append, List.forall_mem_cons]
    refine ⟨.append ?_ (by decide), .append ?_ (by decide), htemplate, .append (by decide) htry, hopen,
      .append ?_ (by decide), hclose, htemplate, .append ?_ htry, hopen, .append ?_ (by decide), hclose, by simp⟩
    · simp only [unbroken_append, hname, hstring, hfunction, and_true]
      decide
    · simp only [unbroken_append, htry.1, hbool, hfunction, and_true]
      decide
    · simp only [unbroken_append, hfunction, and_true]
      decide
    · simp only [unbroken_append, hbool, and_true]
      decide
    · simp only [unbroken_append, hfunction, and_true]
      decide
  | parseSource =>
    simp only [body, List.flatMap_append, List.flatMap_cons, List.flatMap_nil, Step.lineTexts, List.cons_append,
      List.nil_append, List.forall_mem_append, List.forall_mem_cons]
    refine ⟨.append ?_ (by decide), hopen, ?_, .append ?_ (by decide), hclose, .append ?_ htry, hopen,
      .append ?_ (by decide), .append ?_ (by decide), hclose, by simp⟩
    · simp only [unbroken_append, hname, hstring, hparse, hfunction, and_true]
      decide
    · intro t ht
      rw [Step.flatMap_lineTexts_line] at ht
      obtain ⟨q, hq, rfl⟩ := List.mem_map.mp ht
      exact (hcases hq).2
    · simp only [unbroken_append, hname, and_true]
      decide
    · simp only [unbroken_append, hbool, hparse, hfunction, and_true]
      decide
    · simp only [unbroken_append, hfunction, and_true]
      decide
    · simp only [unbroken_append, hname, and_true]
      decide

theorem all_isWhole_body (p : Passage) : (c.body o p).all Step.isWhole = true := by
  have hlines : ∀ f : Text × Text → Text, (c.cases.map fun q => Step.line (f q)).all Step.isWhole = true := by
    intro f
    induction c.cases with
    | nil => rfl
    | cons q cases ih => exact ih
  cases p with
  | toStringHeader => rfl
  | toStringSource =>
    rw [body, List.all_append, List.all_append, hlines]
    rfl
  | parseHeader => rfl
  | parseSource =>
    rw [body, List.all_append, List.all_append, hlines]
    rfl

theorem isWhole_of_mem_steps : ∀ s ∈ c.steps o, s.isWhole = true := by
  intro s hs
  obtain ⟨p, -, hp⟩ := List.mem_flatMap.mp hs
  rcases List.mem_cons.mp hp with rfl | hp
  · rfl
  · exact List.all_eq_true.mp (all_isWhole_body p) s hp

/-- The lines of a passage, with its title. -/
def passageLines (c : Conversion) (o : Options) (p : Passage) : Text × List Text := (p.title, codeOf (c.body o p))

/-- The code of an enumeration is its four passages, each under its title. -/
theorem codeOf_steps : codeOf (c.steps o) = (Passage.all.map (c.passageLines o)).flatMap sectionLines := by
  have hpassage : ∀ p, codeOf (.banner p.title :: c.body o p) = sectionLines (c.passageLines o p) := by
    intro p
    have htitle : codeLines ('\t' :: p.title) = [p.title] := by cases p <;> decide
    have hrule : codeLines bannerRule = [bannerRule] := by decide
    simp [codeOf, Step.lineTexts, htitle, hrule, sectionLines, passageLines]
  rw [List.flatMap_map]
  simp only [steps, Passage.all, List.flatMap_cons, List.flatMap_nil, codeOf_append, hpassage]
  rfl

/-- The lines of code of a passage are its lines without their indentation. -/
theorem codeOf_body (h : c.Unbroken o) (p : Passage) :
    codeOf (c.body o p) = ((c.body o p).flatMap Step.lineTexts).map unindent := by
  have hcode := isCode_of_mem_body h p
  rw [codeOf]
  generalize (c.body o p).flatMap Step.lineTexts = texts at hcode ⊢
  induction texts with
  | nil => rfl
  | cons t texts ih =>
    obtain ⟨ht, htexts⟩ := List.forall_mem_cons.mp hcode
    rw [List.flatMap_cons, ht.codeLines, ih htexts, List.map_cons, List.singleton_append]

theorem bannerRule_notMem (h : c.Unbroken o) (p : Passage) : bannerRule ∉ codeOf (c.body o p) := by
  rw [codeOf_body h]
  intro hrule
  obtain ⟨t, ht, heq⟩ := List.mem_map.mp hrule
  exact (isCode_of_mem_body h p t ht).ne_bannerRule heq

end Conversion

/-- Each passage of the text of an enumeration is found again under its title. -/
theorem linesUnder_generatedText {o : Options} {e : Enumeration} (h : (Conversion.ofEnumeration o e).Unbroken o)
    (p : Passage) :
    linesUnder p.title (generatedText o [e]) =
      (((Conversion.ofEnumeration o e).body o p).flatMap Step.lineTexts).map unindent := by
  have hsections : ∀ s ∈ Passage.all.map ((Conversion.ofEnumeration o e).passageLines o),
      s.1 ≠ bannerRule ∧ bannerRule ∉ s.2 := by
    intro s hs
    obtain ⟨q, -, rfl⟩ := List.mem_map.mp hs
    refine ⟨?_, Conversion.bannerRule_notMem h q⟩
    show q.title ≠ bannerRule
    cases q <;> decide
  have hsplit := splitOn_sections (List.not_mem_nil (a := bannerRule)) hsections
  rw [List.nil_append, ← Conversion.codeOf_steps, ← codeLines_render Conversion.isWhole_of_mem_steps] at hsplit
  rw [linesUnder, generatedText, List.flatMap_singleton, hsplit, List.tail_cons, titled_flatMap,
    ← Conversion.codeOf_body h]
  cases p <;> rfl

end EnumStrings
