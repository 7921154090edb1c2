import Mathlib.Data.List.Basic
import EnumStrings.Proofs.Composition
import EnumStrings.Proofs.LineLayout
import EnumStrings.Text

/-!
# Names of functions tell the names of enums

Of the letters from A to Z, the tables of capital and small letters say what everybody expects (`isUpper_ascii`,
`toLower_ascii`). So a name of such letters, digits and underscores has nothing but small letters, digits and
underscores in snake case (`small_of_mem_snakeCase`), and stays as it is from then on (`snakeCase_eq_self`).

An underscore is put in front of a capital letter and nowhere else, so in a name that has none of its own each tells
where a capital was (`pascalCase_snakeCase`). The functions that read strings of two such enums are named differently
(`snakeCase_faithful`).
-/

namespace EnumStrings

/-! ## Letters from A to Z -/

section Letters

variable {c : Char}

theorem CodeRun.contains_eq_false {r : CodeRun} (h : c.toNat < r.first) : r.contains c = false := by
  have hfirst : ¬ r.first ≤ c.toNat := by omega
  simp [contains, hfirst]

/-- The code points of the capital letters from A to Z. -/
theorem isUpper_iff_toNat : c.isUpper = true ↔ 0x41 ≤ c.toNat ∧ c.toNat ≤ 0x5A := decide_eq_true_iff

theorem contains_capitals : (⟨0x41, 0x5A, 1⟩ : CodeRun).contains c = c.isUpper := by
  rw [Bool.eq_iff_iff, isUpper_iff_toNat]
  simp [CodeRun.contains, Nat.mod_one]

/-- Among the first code points, capital letters are those from A to Z. -/
theorem isUpper_ascii (hc : c.toNat < 0x80) : isUpper c = c.isUpper := by
  -- only the first run of the table starts among them
  have hruns : ∀ r ∈ upperRuns.tail, 0x80 ≤ r.first := by decide +kernel
  have hothers : upperRuns.tail.any (·.contains c) = false := by
    refine List.any_eq_false.mpr fun r hr => ?_
    have hfirst := hruns r hr
    simp [CodeRun.contains_eq_false (show c.toNat < r.first by omega)]
  show (CodeRun.contains ⟨0x41, 0x5A, 1⟩ c || upperRuns.tail.any (·.contains c)) = c.isUpper
  rw [hothers, Bool.or_false, contains_capitals]

/-- A property of the capital letters from A to Z, checked letter by letter. -/
theorem forall_capital {P : Char → Prop} (h : ∀ n ∈ List.range' 0x41 26, P (Char.ofNat n)) (hc : c.isUpper = true) :
    P c := by
  obtain ⟨hfirst, hlast⟩ := isUpper_iff_toNat.mp hc
  have hmem : c.toNat ∈ List.range' 0x41 26 := by
    rw [List.mem_range'_1]
    omega
  simpa using h c.toNat hmem

theorem toLower_of_not_isUpper (h : c.isUpper = false) : c.toLower = c := dif_neg (of_decide_eq_false h)

/-- Among the first code points, no letters but those from A to Z have small forms, and these are the small letters
from A to Z. -/
theorem toLower_ascii (hc : c.toNat < 0x80) : toLower c = [c.toLower] := by
  have hruns : ∀ r ∈ lowerRuns.tail, 0x80 ≤ r.1.first := by decide +kernel
  have hothers : lowerRuns.tail.find? (·.1.contains c) = none := by
    refine List.find?_eq_none.mpr fun r hr => ?_
    have hfirst := hruns r hr
    simp [CodeRun.contains_eq_false (show c.toNat < r.1.first by omega)]
  have hfind : lowerRuns.find? (·.1.contains c) = if c.isUpper then some (⟨0x41, 0x5A, 1⟩, 32) else none := by
    show ((⟨0x41, 0x5A, 1⟩, 32) :: lowerRuns.tail).find? (·.1.contains c) = _
    rw [List.find?_cons, contains_capitals, hothers]
    cases c.isUpper <;> rfl
  have hdotted : c ≠ 'İ' := by
    rintro rfl
    exact absurd hc (by decide)
  rw [toLower, if_neg hdotted, hfind]
  cases hcapital : c.isUpper with
  | true =>
    have hsmall : c.toLower = Char.ofNat (c.toNat + 32) :=
      forall_capital (P := fun c => c.toLower = Char.ofNat (c.toNat + 32)) (by decide) hcapital
    rw [hsmall]
    rfl
  | false =>
    rw [toLower_of_not_isUpper hcapital]
    rfl

end Letters

/-! ## Names -/

/-- A letter from A to Z in either case, a digit from 0 to 9, or an underscore. -/
def IsAsciiWord (c : Char) : Prop := c.isAlphanum = true ∨ c = '_'

/-- A name of letters from A to Z that starts with a capital one, with digits perhaps, and without underscores. -/
structure PascalName (s : Text) : Prop where
  ascii : ∀ c ∈ s, IsAsciiWord c
  capital : s.head?.any Char.isUpper = true
  plain : '_' ∉ s

/-- The text without underscores, where the character behind each, and one that is to be a capital letter at the front,
is one. -/
def capitalise (atFront : Bool) : Text → Text
  | [] => []
  | c :: s => if c = '_' then capitalise true s else (if atFront then c.toUpper else c) :: capitalise false s

/-- The text without underscores, with a capital letter at the front and behind each underscore. -/
def pascalCase (s : Text) : Text := capitalise true s

section Names

variable {c d : Char} {s t : Text}

theorem IsAsciiWord.toNat_lt (h : IsAsciiWord c) : c.toNat < 0x80 := by
  rcases h with h | rfl
  · rcases Bool.or_eq_true_iff.mp h with hletter | hdigit
    · have := isAlpha_iff.mp hletter
      omega
    · have := (Char.isDigit_iff_toNat.mp hdigit).2
      have hnine : '9'.toNat = 0x39 := rfl
      omega
  · decide

/-- The small form of a letter is no capital letter, and its own small form. -/
theorem IsAsciiWord.small (h : IsAsciiWord c) : IsAsciiWord c.toLower ∧ c.toLower.isUpper = false := by
  cases hc : c.isUpper with
  | true =>
    have hsmall : c.toLower.isAlphanum = true ∧ c.toLower.isUpper = false :=
      forall_capital (P := fun c => c.toLower.isAlphanum = true ∧ c.toLower.isUpper = false) (by decide) hc
    exact ⟨Or.inl hsmall.1, hsmall.2⟩
  | false =>
    rw [toLower_of_not_isUpper hc]
    exact ⟨h, hc⟩

/-- A capital letter is the capital form of its small form, which is no underscore. -/
theorem toUpper_toLower (h : c.isUpper = true) : c.toLower.toUpper = c ∧ c.toLower ≠ '_' :=
  forall_capital (P := fun c => c.toLower.toUpper = c ∧ c.toLower ≠ '_') (by decide) h

theorem snakeLetter_ascii (h : IsAsciiWord c) :
    snakeLetter c = if c.isUpper then ['_', c.toLower] else [c] := by
  rw [snakeLetter, isUpper_ascii h.toNat_lt, toLower_ascii h.toNat_lt]
  cases hc : c.isUpper with
  | true => rfl
  | false => rw [toLower_of_not_isUpper hc]

/-- What a name is made of in snake case. -/
theorem small_of_mem_snakeCase (hs : ∀ c ∈ s, IsAsciiWord c) :
    ∀ d ∈ snakeCase s, IsAsciiWord d ∧ d.isUpper = false := by
  have hletter : ∀ c, IsAsciiWord c → ∀ d ∈ snakeLetter c, IsAsciiWord d ∧ d.isUpper = false := by
    intro c hc d hd
    rw [snakeLetter_ascii hc] at hd
    split at hd
    · rcases List.mem_cons.mp hd with rfl | hd
      · exact ⟨Or.inr rfl, rfl⟩
      · exact List.mem_singleton.mp hd ▸ hc.small
    · rename_i hcapital
      exact List.mem_singleton.mp hd ▸ ⟨hc, by simpa using hcapital⟩
  intro d hd
  cases s with
  | nil => cases hd
  | cons c s =>
    obtain ⟨hc, hs⟩ := List.forall_mem_cons.mp hs
    rw [snakeCase, toLower_ascii hc.toNat_lt] at hd
    rcases List.mem_append.mp hd with hd | hd
    · exact List.mem_singleton.mp hd ▸ hc.small
    · obtain ⟨x, hx, hd⟩ := List.mem_flatMap.mp hd
      exact hletter x (hs x hx) d hd

/-- A name without capital letters is in snake case. -/
theorem snakeCase_eq_self (hs : ∀ c ∈ s, IsAsciiWord c ∧ c.isUpper = false) : snakeCase s = s := by
  have hbehind : ∀ t : Text, (∀ c ∈ t, IsAsciiWord c ∧ c.isUpper = false) → t.flatMap snakeLetter = t := by
    intro t ht
    induction t with
    | nil => rfl
    | cons c t ih =>
      obtain ⟨⟨hc, hsmall⟩, ht⟩ := List.forall_mem_cons.mp ht
      rw [List.flatMap_cons, ih ht, snakeLetter_ascii hc, hsmall]
      rfl
  cases s with
  | nil => rfl
  | cons c s =>
    obtain ⟨⟨hc, hsmall⟩, hs⟩ := List.forall_mem_cons.mp hs
    rw [snakeCase, hbehind s hs, toLower_ascii hc.toNat_lt, toLower_of_not_isUpper hsmall]
    rfl

/-- Within a name, every underscore is put in front of a capital letter, and tells it. -/
theorem capitalise_flatMap (hs : ∀ c ∈ s, IsAsciiWord c) (hplain : '_' ∉ s) :
    capitalise false (s.flatMap snakeLetter) = s := by
  induction s with
  | nil => rfl
  | cons c s ih =>
    obtain ⟨hc, hs⟩ := List.forall_mem_cons.mp hs
    obtain ⟨hunderscore, hplain⟩ := not_or.mp (mt List.mem_cons.mpr hplain)
    rw [List.flatMap_cons, snakeLetter_ascii hc]
    cases hcapital : c.isUpper with
    | true =>
      obtain ⟨hletter, hne⟩ := toUpper_toLower hcapital
      simp [capitalise, hne, hletter, ih hs hplain]
    | false => simp [capitalise, Ne.symm hunderscore, ih hs hplain]

theorem pascalCase_snakeCase (h : PascalName s) : pascalCase (snakeCase s) = s := by
  obtain ⟨hascii, hcapital, hplain⟩ := h
  cases s with
  | nil => cases hcapital
  | cons c s =>
    obtain ⟨hc, hs⟩ := List.forall_mem_cons.mp hascii
    obtain ⟨hletter, hne⟩ := toUpper_toLower (c := c) hcapital
    have hplain : '_' ∉ s := fun hmem => hplain (List.mem_cons_of_mem c hmem)
    simp [pascalCase, snakeCase, toLower_ascii hc.toNat_lt, capitalise, hne, hletter, capitalise_flatMap hs hplain]

end Names

/-! ## Functions -/

/-- The names of the functions that read strings. -/
def Conversion.readers (c : Conversion) : List Text :=
  ["to_".toList ++ c.functionName, "try_".toList ++ c.functionName]

section Functions

variable {o : Options} {e e' : Enumeration} {es : List Enumeration} {steps : List Step} {t : Text}

/-- The lines that steps write stand in their text. -/
theorem infix_ended_rows (l : Layout) (ht : t ∈ steps.flatMap Step.lineTexts) : t <:+: ended (l.rows steps) := by
  induction steps generalizing l with
  | nil => cases ht
  | cons s steps ih =>
    rw [Layout.rows, ended_append]
    rw [List.flatMap_cons] at ht
    rcases List.mem_append.mp ht with hs | hothers
    · have hrow : List.replicate (s.rowDepth l) '\t' ++ t ∈ s.rows l :=
        List.mem_append_right _ (List.mem_map_of_mem hs)
      obtain ⟨above, below, hrows⟩ := List.append_of_mem hrow
      refine ⟨ended above ++ List.replicate (s.rowDepth l) '\t',
        '\n' :: (ended below ++ ended ((s.next l).rows steps)), ?_⟩
      rw [hrows]
      simp [ended]
    · exact (ih _ hothers).trans (List.suffix_append _ _).isInfix

theorem infix_generatedText (he : e ∈ es) {p : Passage}
    (ht : t ∈ ((Conversion.ofEnumeration o e).body o p).flatMap Step.lineTexts) : t <:+: generatedText o es := by
  have htext : generatedText o es = ended (({} : Layout).rows (stepsOf o es)) := render_eq_ended isWhole_stepsOf
  rw [htext]
  apply infix_ended_rows
  obtain ⟨s, hs, hline⟩ := List.mem_flatMap.mp ht
  have hp : p ∈ Passage.all := by cases p <;> decide
  have hsteps : s ∈ (Conversion.ofEnumeration o e).steps o :=
    List.mem_flatMap.mpr ⟨p, hp, List.mem_cons_of_mem _ hs⟩
  exact List.mem_flatMap.mpr ⟨s, List.mem_flatMap.mpr ⟨e, he, hsteps⟩, hline⟩

/-- The functions that read strings are declared in the generated text. -/
theorem readers_infix (he : e ∈ es) {f : Text} (hf : f ∈ (Conversion.ofEnumeration o e).readers) :
    ' ' :: f ++ ['('] <:+: generatedText o es := by
  rcases List.mem_cons.mp hf with rfl | hf
  · have hline := infix_generatedText (o := o) (t := (Conversion.ofEnumeration o e).name ++ " to_".toList ++
      (Conversion.ofEnumeration o e).functionName ++ "(".toList ++ o.stringType ++ " const& string);".toList)
      he (p := .parseHeader) (by simp [Conversion.body, Step.lineTexts])
    refine List.IsInfix.trans ?_ hline
    exact ⟨(Conversion.ofEnumeration o e).name, o.stringType ++ " const& string);".toList, by simp⟩
  · obtain rfl := List.mem_singleton.mp hf
    have hline := infix_generatedText (o := o) (t := o.boolType ++ " try_".toList ++
      (Conversion.ofEnumeration o e).functionName ++ (Conversion.ofEnumeration o e).tryParameters o ++ ";".toList)
      he (p := .parseHeader) (by simp [Conversion.body, Step.lineTexts])
    refine List.IsInfix.trans ?_ hline
    exact ⟨o.boolType, o.stringType ++ " const& string, ".toList ++ e.name ++ "& value);".toList, by
      simp [Conversion.tryParameters, Conversion.ofEnumeration]⟩

/-- The functions that read strings of two enums are named differently. -/
theorem readers_disjoint (he : PascalName e.name) (he' : PascalName e'.name) (hne : e.name ≠ e'.name) :
    (Conversion.ofEnumeration o e).readers.Disjoint (Conversion.ofEnumeration o e').readers := by
  have hnames : snakeCase e.name ≠ snakeCase e'.name := by
    intro h
    apply hne
    rw [← pascalCase_snakeCase he, h, pascalCase_snakeCase he']
  simp [Conversion.readers, Conversion.ofEnumeration, List.disjoint_left, hnames]

end Functions

/-- **Snake case is faithful**: it has no capitals, is its own snake case, and gives back a name in camel case. So the
readers of different enums have different names. -/
theorem snakeCase_faithful (o : Options) (es : List Enumeration) :
    (∀ s, (∀ c ∈ s, IsAsciiWord c) →
      (∀ c ∈ snakeCase s, isUpper c = false) ∧ snakeCase (snakeCase s) = snakeCase s) ∧
    (∀ s, PascalName s → pascalCase (snakeCase s) = s) ∧
    (∀ e ∈ es, ∀ f ∈ (Conversion.ofEnumeration o e).readers, ' ' :: f ++ ['('] <:+: generatedText o es) ∧
    ∀ e ∈ es, ∀ e' ∈ es, PascalName e.name → PascalName e'.name → e.name ≠ e'.name →
      (Conversion.ofEnumeration o e).readers.Disjoint (Conversion.ofEnumeration o e').readers := by
  refine ⟨fun s hs => ⟨fun c hc => ?_, snakeCase_eq_self (small_of_mem_snakeCase hs)⟩,
    fun s => pascalCase_snakeCase, fun e he f => readers_infix he, fun e _ e' _ => readers_disjoint⟩
  obtain ⟨hword, hsmall⟩ := small_of_mem_snakeCase hs c hc
  rw [isUpper_ascii hword.toNat_lt, hsmall]

end EnumStrings
