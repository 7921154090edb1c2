import EnumStrings.Proofs.DeclarationShape
import EnumStrings.Proofs.Sections
import EnumStrings.Proofs.CommonBeginning

/-!
# The generated conversions are inverse to each other

The lines that make strings of members and those that read members off strings are read back from the generated text
(`readCases`, `readMatches`). They hold the same pairs in the same order, and the first member that is read off a
string is the one that the string is made of (`generatedText_inverse`).
-/

namespace EnumStrings

/-! ## Reading the lines back -/

/-- The member and the string on a line that makes a string of a member of the enum `name`. -/
def readCase? (name line : Text) : Option (Text × Text) := do
  let s ← keyword? ("case ".toList ++ name ++ "::".toList) line
  let text ← keyword? ": return \"".toList (s.dropWhile (· != ':'))
  guard (text.dropWhile (· != '"') = "\";".toList)
  return (s.takeWhile (· != ':'), text.takeWhile (· != '"'))

/-- The member and the string on a line that reads a member of the enum `name` off its string. -/
def readMatch? (name line : Text) : Option (Text × Text) := do
  let s ← keyword? "if (string == \"".toList line
  let member ← keyword? ("\") return ".toList ++ name ++ "::".toList) (s.dropWhile (· != '"'))
  guard (member.dropWhile (· != ';') = [';'])
  return (member.takeWhile (· != ';'), s.takeWhile (· != '"'))

/-- The pairs of members and strings, as the generated text makes strings. -/
def readCases (name text : Text) : List (Text × Text) :=
  (linesUnder Passage.toStringSource.title text).filterMap (readCase? name)

/-- The pairs of members and strings, as the generated text reads strings. -/
def readMatches (name text : Text) : List (Text × Text) :=
  (linesUnder Passage.parseSource.title text).filterMap (readMatch? name)

section Lines

variable {c : Conversion} {name member text line s r : Text}

theorem readCase?_caseLine (hm : ':' ∉ member) (ht : '"' ∉ text) :
    readCase? c.name (c.caseLine member text) = some (member, text) := by
  have hline : c.caseLine member text = ("case ".toList ++ c.name ++ "::".toList) ++
      (member ++ (": return \"".toList ++ (text ++ "\";".toList))) := by
    unfold Conversion.caseLine
    simp only [List.append_assoc]
  obtain ⟨hmember, hreturn⟩ := span_append_of_head (r := ": return \"".toList ++ (text ++ "\";".toList)) hm rfl
  obtain ⟨htext, hend⟩ := span_append_of_head (r := "\";".toList) ht rfl
  rw [readCase?, hline, keyword?_append]
  simp only [Option.bind_eq_bind, Option.bind_some, hmember, hreturn, keyword?_append, htext, hend, guard, if_true]
  rfl

theorem readMatch?_matchLine (hm : ';' ∉ member) (ht : '"' ∉ text) :
    readMatch? c.name (c.matchLine member text) = some (member, text) := by
  have hline : c.matchLine member text = "if (string == \"".toList ++
      (text ++ (("\") return ".toList ++ c.name ++ "::".toList) ++ (member ++ ";".toList))) := by
    unfold Conversion.matchLine
    simp only [List.append_assoc]
  obtain ⟨htext, hreturn⟩ := span_append_of_head
    (r := ("\") return ".toList ++ c.name ++ "::".toList) ++ (member ++ ";".toList)) ht rfl
  obtain ⟨hmember, hend⟩ := span_append_of_head (r := ";".toList) hm rfl
  rw [readMatch?, hline, keyword?_append]
  simp only [Option.bind_eq_bind, Option.bind_some, htext, hreturn, keyword?_append, hmember, hend, guard]
  rfl

theorem eq_of_guard {P : Prop} [Decidable P] {α : Type} {f : Unit → Option α} {a : α}
    (h : (guard P : Option Unit).bind f = some a) : P := by
  by_cases hp : P
  · exact hp
  · rw [guard, if_neg hp] at h
    cases h

/-- What is left of a line behind a word, from some character on, ends the line. -/
theorem dropWhile_suffix_of_keyword? {word : Text} (h : keyword? word s = some r) (p : Char → Bool) :
    r.dropWhile p <:+ s := by
  obtain rfl := eq_append_of_keyword? h
  exact (List.dropWhile_suffix p).trans (List.suffix_append word r)

/-- A line that makes a string of a member ends with a semicolon. -/
theorem suffix_of_readCase? {p : Text × Text} (h : readCase? name line = some p) : [';'] <:+ line := by
  obtain ⟨s, hs, h⟩ := Option.bind_eq_some_iff.mp h
  obtain ⟨text, htext, h⟩ := Option.bind_eq_some_iff.mp h
  have hlast : [';'] <:+ "\";".toList := ⟨['"'], rfl⟩
  rw [← eq_of_guard h] at hlast
  exact hlast.trans ((dropWhile_suffix_of_keyword? htext _).trans (dropWhile_suffix_of_keyword? hs _))

/-- A line that reads a member off a string ends with a semicolon. -/
theorem suffix_of_readMatch? {p : Text × Text} (h : readMatch? name line = some p) : [';'] <:+ line := by
  obtain ⟨s, hs, h⟩ := Option.bind_eq_some_iff.mp h
  obtain ⟨member, hmember, h⟩ := Option.bind_eq_some_iff.mp h
  have hlast : [';'] <:+ member.dropWhile (· != ';') := ⟨[], (eq_of_guard h).symm⟩
  exact hlast.trans ((dropWhile_suffix_of_keyword? hmember _).trans (dropWhile_suffix_of_keyword? hs _))

/-- A line that ends with a parenthesis holds no pair, however it is indented. -/
theorem readCase?_unindent (h : [')'] <:+ s) :
    readCase? name (unindent s) = none ∧ readMatch? name (unindent s) = none := by
  have hmem : ')' ∈ unindent s := mem_unindent (h.subset List.mem_cons_self) (by decide)
  have hparen : [')'] <:+ unindent s := by
    rcases List.suffix_or_suffix_of_suffix h (List.dropWhile_suffix _) with hs | hs
    · exact hs
    · rcases List.suffix_cons_iff.mp hs with hs | hs
      · exact ⟨[], hs.symm⟩
      · rw [unindent, List.suffix_nil.mp hs] at hmem
        cases hmem
  have hno : ¬ [';'] <:+ unindent s := by
    intro hsemicolon
    rcases List.suffix_or_suffix_of_suffix hparen hsemicolon with hs | hs
    · exact absurd hs (by decide)
    · exact absurd hs (by decide)
  constructor
  · cases hcase : readCase? name (unindent s) with
    | none => rfl
    | some p => exact absurd (suffix_of_readCase? hcase) hno
  · cases hmatch : readMatch? name (unindent s) with
    | none => rfl
    | some p => exact absurd (suffix_of_readMatch? hmatch) hno

end Lines

/-! ## Reading the passages back -/

section Passages

variable {o : Options} {e : Enumeration}

theorem filterMap_pairs {cases : List (Text × Text)} {line : Text × Text → Text} {read : Text → Option (Text × Text)}
    (h : ∀ q ∈ cases, read (unindent (line q)) = some q) :
    ((cases.map line).map unindent).filterMap read = cases := by
  induction cases with
  | nil => rfl
  | cons q cases ih =>
    obtain ⟨hq, hcases⟩ := List.forall_mem_cons.mp h
    rw [List.map_cons, List.map_cons, List.filterMap_cons_some hq, ih hcases]

theorem filterMap_lines {texts : List Text} {read : Text → Option (Text × Text)}
    (h : ∀ t ∈ texts, read (unindent t) = none) : (texts.map unindent).filterMap read = [] := by
  rw [List.filterMap_map, List.filterMap_eq_nil_iff]
  exact h

/-- The lines that make strings hold the members with their strings. -/
theorem readCases_generatedText (h : (Conversion.ofEnumeration o e).Unbroken o)
    (hc : ∀ q ∈ (Conversion.ofEnumeration o e).cases, ':' ∉ q.1 ∧ '"' ∉ q.2) :
    readCases e.name (generatedText o [e]) = (Conversion.ofEnumeration o e).cases := by
  have hcases : ∀ q ∈ (Conversion.ofEnumeration o e).cases,
      readCase? e.name (unindent ((Conversion.ofEnumeration o e).caseLine q.1 q.2)) = some q := fun q hq =>
    readCase?_caseLine (c := Conversion.ofEnumeration o e) (hc q hq).1 (hc q hq).2
  rw [readCases, linesUnder_generatedText h]
  simp only [Conversion.body, List.flatMap_append, Step.flatMap_lineTexts_line, List.map_append,
    List.filterMap_append, filterMap_pairs hcases]
  rw [filterMap_lines, filterMap_lines, List.nil_append, List.append_nil]
  · simp only [List.flatMap_cons, List.flatMap_nil, Step.lineTexts, List.cons_append, List.nil_append,
      List.forall_mem_cons]
    exact ⟨rfl, rfl, rfl, List.forall_mem_nil _⟩
  · simp only [List.flatMap_cons, List.flatMap_nil, Step.lineTexts, List.cons_append, List.nil_append,
      List.forall_mem_cons]
    exact ⟨(readCase?_unindent (List.suffix_append_of_suffix (by decide))).1, rfl, rfl, rfl, List.forall_mem_nil _⟩

/-- The lines that read strings hold the members with their strings. -/
theorem readMatches_generatedText (h : (Conversion.ofEnumeration o e).Unbroken o)
    (hc : ∀ q ∈ (Conversion.ofEnumeration o e).cases, ';' ∉ q.1 ∧ '"' ∉ q.2) :
    readMatches e.name (generatedText o [e]) = (Conversion.ofEnumeration o e).cases := by
  have hmatches : ∀ q ∈ (Conversion.ofEnumeration o e).cases,
      readMatch? e.name (unindent ((Conversion.ofEnumeration o e).matchLine q.1 q.2)) = some q := fun q hq =>
    readMatch?_matchLine (c := Conversion.ofEnumeration o e) (hc q hq).1 (hc q hq).2
  rw [readMatches, linesUnder_generatedText h]
  simp only [Conversion.body, List.flatMap_append, Step.flatMap_lineTexts_line, List.map_append,
    List.filterMap_append, filterMap_pairs hmatches]
  rw [filterMap_lines, filterMap_lines, List.nil_append, List.append_nil]
  · simp only [List.flatMap_cons, List.flatMap_nil, Step.lineTexts, List.cons_append, List.nil_append,
      List.forall_mem_cons]
    have hsignature : ∀ s, [')'] <:+ s ++ (Conversion.ofEnumeration o e).tryParameters o := fun s =>
      List.suffix_append_of_suffix (List.suffix_append_of_suffix (by decide))
    exact ⟨rfl, rfl, (readCase?_unindent (hsignature _)).2, rfl, rfl, rfl, rfl, List.forall_mem_nil _⟩
  · simp only [List.flatMap_cons, List.flatMap_nil, Step.lineTexts, List.cons_append, List.nil_append,
      List.forall_mem_cons]
    exact ⟨(readCase?_unindent (List.suffix_append_of_suffix (by decide))).2, rfl, List.forall_mem_nil _⟩

end Passages

/-! ## The pairs -/

/-- The texts that the user chooses. -/
def Options.texts (o : Options) : List Text := o.scope :: o.stringType :: o.boolType :: o.parseScope?.toList

section Pairs

variable {o : Options} {e : Enumeration} {src : Text} {c : Char} {p : Text × Text}

/-- Word characters need no escape in a string of the target language. -/
theorem plain_of_isWord (hc : isWord c = true) : c ≠ '"' ∧ c ≠ '\\' ∧ breaksLine c = false := by
  refine ⟨ne_of_isWord hc (isWord_delimiter (by decide)), ne_of_isWord hc (isWord_delimiter (by decide)), ?_⟩
  cases hb : breaksLine c with
  | false => rfl
  | true =>
    have hblank : isBlank c = true := by
      simp only [breaksLine, Bool.or_eq_true, beq_iff_eq] at hb
      rcases hb with (((((rfl | rfl) | rfl) | rfl) | rfl) | rfl) | rfl <;> decide
    rw [isBlank_eq_false_of_isWord hc] at hblank
    cases hblank

theorem unbroken_qualifier {s : Text} (hs : Unbroken s) : Unbroken (qualifier s) := by
  unfold qualifier
  split
  · decide
  · exact unbroken_append.mpr ⟨hs, by decide⟩

theorem unbroken_parseScope (ho : ∀ s ∈ o.texts, Unbroken s) : Unbroken o.parseScope := by
  have hscope : Unbroken o.scope := ho _ List.mem_cons_self
  unfold Options.parseScope
  cases hp : o.parseScope? with
  | none => exact unbroken_append.mpr ⟨unbroken_qualifier hscope, by decide⟩
  | some s => exact ho s (by simp [Options.texts, hp])

/-- A pair is a member of the enum and what is left of it, which is not empty. -/
theorem mem_cases (he : e.Named) (hp : p ∈ (Conversion.ofEnumeration o e).cases) :
    o.omitted e.memberNames ++ p.2 = p.1 ∧ MemberName p.1 ∧ MemberName p.2 := by
  obtain ⟨m, hm, rfl⟩ := List.mem_map.mp hp
  have hword : ∀ c ∈ m.drop (o.omitted e.memberNames).length, isWord c = true := fun c hc =>
    (he.2 m hm).2 c (List.mem_of_mem_drop hc)
  have hne := Options.drop_omitted_ne_nil (o := o) (fun s hs => (he.2 s hs).1) hm
  exact ⟨o.omitted_append_drop hm, he.2 m hm, hne, hword⟩

theorem notMem_of_memberName {s : Text} (hs : MemberName s) (hc : isWord c = false) : c ∉ s := fun h =>
  ne_of_isWord (hs.2 c h) hc rfl

theorem unbroken_ofEnumeration (he : e.Named) (ho : ∀ s ∈ o.texts, Unbroken s) :
    (Conversion.ofEnumeration o e).Unbroken o := by
  have hbreak : isWord '\n' = false := isWord_eq_false_of_isBlank (by decide)
  have hname : Unbroken e.name := fun h =>
    ne_of_isWord (he.1.isWord _ h) hbreak rfl
  refine ⟨hname, unbroken_snakeCase hname, ?_, ?_, ?_, ?_, ?_⟩
  · intro p hp
    obtain ⟨-, hmember, htext⟩ := mem_cases he hp
    exact ⟨notMem_of_memberName hmember hbreak, notMem_of_memberName htext hbreak⟩
  · exact unbroken_qualifier (ho _ (by simp [Options.texts]))
  · exact unbroken_qualifier (unbroken_parseScope ho)
  · exact ho _ (by simp [Options.texts])
  · exact ho _ (by simp [Options.texts])

/-- The first pair with a string is the only one with it, up to repetition. -/
theorem find?_cases (he : e.Named) (hp : p ∈ (Conversion.ofEnumeration o e).cases) :
    (Conversion.ofEnumeration o e).cases.find? (·.2 == p.2) = some p := by
  cases hfind : (Conversion.ofEnumeration o e).cases.find? (·.2 == p.2) with
  | none =>
    have hnone := List.find?_eq_none.mp hfind p hp
    exact absurd (beq_self_eq_true p.2) hnone
  | some q =>
    obtain ⟨hq, -, -⟩ := mem_cases he (List.mem_of_find?_eq_some hfind)
    obtain ⟨hp, -, -⟩ := mem_cases he hp
    have htext : q.2 = p.2 := by simpa using List.find?_some hfind
    rw [htext, hp] at hq
    rw [Prod.ext hq.symm htext]

/-- **The conversions are inverse to each other**: both hold the same pairs, one for each member, and the first member
read off a string is the one it is made of. -/
theorem generatedText_inverse (he : e ∈ (Listing.ofSource src).enumerations) (ho : ∀ s ∈ o.texts, '\n' ∉ s) :
    readMatches e.name (generatedText o [e]) = readCases e.name (generatedText o [e]) ∧
      (readCases e.name (generatedText o [e])).map Prod.fst = e.memberNames ∧
      (∀ p ∈ readCases e.name (generatedText o [e]), p.2 ≠ [] ∧ p.2 <:+ p.1 ∧
        ∀ c ∈ p.2, c ≠ '"' ∧ c ≠ '\\' ∧ breaksLine c = false) ∧
      ∀ p ∈ readCases e.name (generatedText o [e]),
        (readMatches e.name (generatedText o [e])).find? (·.2 == p.2) = some p := by
  have hnamed := Enumeration.named_of_mem he
  have hunbroken := unbroken_ofEnumeration hnamed ho
  have hquote : isWord '"' = false := isWord_delimiter (by decide)
  have hcolon : isWord ':' = false := isWord_delimiter (by decide)
  have hsemicolon : isWord ';' = false := isWord_delimiter (by decide)
  have hno : ∀ {c : Char}, isWord c = false → ∀ p ∈ (Conversion.ofEnumeration o e).cases, c ∉ p.1 ∧ '"' ∉ p.2 := by
    intro c hc p hp
    obtain ⟨-, hmember, htext⟩ := mem_cases hnamed hp
    exact ⟨notMem_of_memberName hmember hc, notMem_of_memberName htext hquote⟩
  have hcases := readCases_generatedText hunbroken (hno hcolon)
  have hmatches := readMatches_generatedText hunbroken (hno hsemicolon)
  rw [hcases, hmatches]
  refine ⟨rfl, ?_, ?_, fun p hp => find?_cases hnamed hp⟩
  · simp [Conversion.ofEnumeration, Function.comp_def]
  · intro p hp
    obtain ⟨happend, -, hne, hword⟩ := mem_cases hnamed hp
    exact ⟨hne, ⟨_, happend⟩, fun c hc => plain_of_isWord (hword c hc)⟩

end Pairs

/-- A member that occurs twice, behind a beginning that is left out, is read off its string. -/
theorem generatedText_inverse_repeated :
    ∃ e ∈ (Listing.ofSource "enum E \x7b A_X, A_Y, A_X \x7d;".toList).enumerations,
      readMatches e.name (generatedText { stripPrefix := true } [e]) =
          [("A_X".toList, "X".toList), ("A_Y".toList, "Y".toList), ("A_X".toList, "X".toList)] ∧
        readMatches e.name (generatedText { stripPrefix := true } [e]) =
          readCases e.name (generatedText { stripPrefix := true } [e]) := by
  have he : (⟨"E".toList, [⟨"A_X".toList, 9⟩, ⟨"A_Y".toList, 14⟩, ⟨"A_X".toList, 19⟩], ⟨0, 25⟩⟩ : Enumeration) ∈
      (Listing.ofSource "enum E \x7b A_X, A_Y, A_X \x7d;".toList).enumerations := by decide +kernel
  refine ⟨_, he, by decide +kernel, ?_⟩
  exact (generatedText_inverse he (by decide)).1

end EnumStrings
