import Mathlib.Data.List.Forall2
import EnumStrings.Proofs.CommonBeginning
import EnumStrings.Proofs.Shape

/-!
# What stripping changes

Two texts are generated from the same enumerations, one with whole members in the strings and one with what is left of
them. The steps of both are written side by side: a step is the same in both, or it is a branch whose literal has lost
its first bytes (`Alike`). Either way it leaves the same layout, and its rows are alike (`Alike.rows_next`), and so are
those of all steps (`restrung_rows`). A line that is no branch is told from one by its last characters (`plainEnd`).

So the rows of both texts are the same but for the literals of branches, and each of these loses as many bytes as the
others of its enumeration (`generatedText_stripping`).
-/

namespace EnumStrings

/-! ## Branches -/

/-- The branches of a member, with its string left open. -/
inductive Branch (name member : Text) : (Text → Text) → Prop
  | makes : Branch name member fun text =>
      "case ".toList ++ name ++ "::".toList ++ member ++ ": return \"".toList ++ text ++ "\";".toList
  | reads : Branch name member fun text =>
      "if (string == \"".toList ++ text ++ "\") return ".toList ++ name ++ "::".toList ++ member ++ ";".toList

/-- A row with a branch of some member, whose string is the whole member. -/
def IsBranch (row : Text) : Prop :=
  ∃ n name member line, MemberName member ∧ Branch name member line ∧ row = List.replicate n '\t' ++ line member

/-- A row, and the one in its place where strings leave out `k` bytes: a branch of a member of `e` with a shorter
string, or the same row. -/
inductive Restrung (e : Enumeration) (k : Nat) : Text → Text → Prop
  | branch {n : Nat} {member text : Text} {line : Text → Text} : member ∈ e.memberNames → Branch e.name member line →
      dropBytes? k member = some text →
      Restrung e k (List.replicate n '\t' ++ line member) (List.replicate n '\t' ++ line text)
  | other {row : Text} : ¬ IsBranch row → Restrung e k row row

/-! ## Lines that are no branches -/

section Lines

variable {name member r s t : Text} {line : Text → Text}

/-- Whether a line with these last characters, in reverse, is no branch: it is no statement, or it is a call or gives
the empty string. -/
def plainEnd : Text → Bool
  | [] => false
  | ';' :: ')' :: _ => true
  | ';' :: '"' :: '"' :: _ => true
  | c :: _ => c != ';'

/-- A line that ends as no branch does. -/
def Plain (t : Text) : Prop := plainEnd t.reverse = true

instance (t : Text) : Decidable (Plain t) := inferInstanceAs (Decidable (_ = true))

theorem plainEnd_append (h : plainEnd r = true) (s : Text) : plainEnd (r ++ s) = true := by
  revert h
  fun_cases plainEnd r with
  | case1 => exact fun h => absurd h (by decide)
  | case2 => exact fun _ => rfl
  | case3 => exact fun _ => rfl
  | case4 c r _ _ =>
    intro h
    have hc : c ≠ ';' := by simpa using h
    rw [List.cons_append, plainEnd]
    · exact h
    · exact fun _ hsemicolon => absurd hsemicolon hc
    · exact fun _ hsemicolon => absurd hsemicolon hc

/-- Whatever stands in front of such an end. -/
theorem Plain.append (ht : Plain t) : Plain (s ++ t) := by
  rw [Plain, List.reverse_append]
  exact plainEnd_append ht s.reverse

theorem Branch.ne_nil (h : Branch name member line) : line s ≠ [] := by
  cases h <;> simp

/-- The last character of a member tells a branch from other lines. -/
theorem Branch.not_plain (hm : MemberName member) (h : Branch name member line) : ¬ Plain (s ++ line member) := by
  obtain ⟨m, c, rfl⟩ := (List.eq_nil_or_concat' member).resolve_left hm.1
  have hc : isWord c = true := hm.2 c (List.mem_append_right m (List.mem_singleton_self c))
  have hquote : c ≠ '"' := ne_of_isWord hc (isWord_delimiter (by decide))
  have hparenthesis : c ≠ ')' := ne_of_isWord hc (by decide +kernel)
  cases h with
  | makes => simp [Plain, plainEnd, hquote]
  | reads => simp [Plain, plainEnd, hquote, hparenthesis]

theorem Plain.not_isBranch (ht : Plain t) : ¬ IsBranch t := by
  rintro ⟨n, name, member, line, hm, hline, rfl⟩
  exact hline.not_plain hm ht

/-- An empty row is no branch. -/
theorem not_isBranch_nil : ¬ IsBranch [] := by
  rintro ⟨n, name, member, line, hm, hline, hrow⟩
  exact hline.ne_nil (List.append_eq_nil_iff.mp hrow.symm).2

end Lines

/-! ## Steps side by side -/

/-- A step beside the one in its place if the strings of the members of `e` leave out `k` bytes. -/
inductive Alike (e : Enumeration) (k : Nat) : Step → Step → Prop
  | branch {member text : Text} {line : Text → Text} : member ∈ e.memberNames → Branch e.name member line →
      dropBytes? k member = some text → Alike e k (.line (line member)) (.line (line text))
  | other {s : Step} : (∀ t ∈ s.lineTexts, Plain t) → Alike e k s s

section Steps

variable {e : Enumeration} {k : Nat} {l : Layout} {s s' : Step} {steps steps' : List Step}

/-- No empty row is changed. -/
theorem restrung_gap (spaced : Bool) :
    List.Forall₂ (Restrung e k) (if spaced then [[]] else []) (if spaced then [[]] else []) := by
  cases spaced with
  | false => exact .nil
  | true => exact .cons (.other not_isBranch_nil) .nil

/-- Behind two such steps layouts are the same, and their rows differ in literals only. -/
theorem Alike.rows_next (h : Alike e k s s') (l : Layout) :
    List.Forall₂ (Restrung e k) (s.rows l) (s'.rows l) ∧ s.next l = s'.next l := by
  cases h with
  | branch hm hline htext => exact ⟨List.rel_append (restrung_gap _) (.cons (.branch hm hline htext) .nil), rfl⟩
  | other hplain =>
    refine ⟨List.rel_append (restrung_gap _) (List.forall₂_same.mpr fun row hrow => ?_), rfl⟩
    obtain ⟨t, ht, rfl⟩ := List.mem_map.mp hrow
    exact .other (hplain t ht).append.not_isBranch

theorem restrung_rows (h : List.Forall₂ (Alike e k) steps steps') (l : Layout) :
    List.Forall₂ (Restrung e k) (l.rows steps) (l.rows steps') := by
  -- for any layout, since both are in the same one behind each step
  induction h generalizing l with
  | nil => exact .nil
  | cons hs _ ih =>
    obtain ⟨hrows, hnext⟩ := hs.rows_next l
    rw [Layout.rows, Layout.rows, hnext]
    exact List.rel_append hrows (ih _)

/-- Steps without branches stay as they are. -/
theorem alike_refl (h : ∀ t ∈ steps.flatMap Step.lineTexts, Plain t) : List.Forall₂ (Alike e k) steps steps :=
  List.forall₂_same.mpr fun _ hs => .other fun t ht => h t (List.mem_flatMap_of_mem hs ht)

end Steps

/-! ## Passages side by side -/

/-- The options with the choice whether strings leave out the beginning that all members share. -/
def Options.stripping (o : Options) (strip : Bool) : Options := { o with stripPrefix := strip }

section Passages

variable {o : Options} {e : Enumeration} {m : Text}

/-- What is left of a member is the member without its first bytes, as many as the shared beginning has. -/
theorem dropBytes?_sharedPrefix {names : List Text} (hm : m ∈ names) :
    dropBytes? (byteLength (sharedPrefix names)) m = some (m.drop (sharedPrefix names).length) := by
  obtain ⟨t, ht⟩ := sharedPrefix_prefix_of_mem hm
  conv => lhs; rw [← ht, dropBytes?_append]
  rw [← ht, List.drop_left]

theorem alike_branches {line : Text → Text → Text} (hline : ∀ member, Branch e.name member (line member)) :
    List.Forall₂ (Alike e (byteLength (sharedPrefix e.memberNames)))
      ((Conversion.ofEnumeration (o.stripping false) e).cases.map fun q => .line (line q.1 q.2))
      ((Conversion.ofEnumeration (o.stripping true) e).cases.map fun q => .line (line q.1 q.2)) := by
  simp only [Conversion.ofEnumeration, List.forall₂_map_left_iff, List.forall₂_map_right_iff, List.forall₂_same]
  exact fun m hm => .branch hm (hline m) (dropBytes?_sharedPrefix hm)

theorem plain_tryParameters (c : Conversion) (o : Options) :
    Plain (c.tryParameters o) ∧ Plain (c.tryParameters o ++ ";".toList) := by
  refine ⟨.append (by decide), ?_⟩
  rw [Conversion.tryParameters, List.append_assoc]
  exact .append (by decide)

/-- The branches of a passage lose bytes of their literals, and all its other lines stay as they are. -/
theorem alike_body (p : Passage) :
    List.Forall₂ (Alike e (byteLength (sharedPrefix e.memberNames)))
      ((Conversion.ofEnumeration (o.stripping false) e).body (o.stripping false) p)
      ((Conversion.ofEnumeration (o.stripping true) e).body (o.stripping true) p) := by
  cases p with
  | toStringHeader =>
    refine alike_refl ?_
    simp only [Conversion.body, Conversion.templateLine, List.flatMap_cons, List.flatMap_nil, Step.lineTexts,
      List.cons_append, List.nil_append, List.forall_mem_cons]
    exact ⟨.append (by decide), by decide, .append (by decide), by decide, by decide, by decide, List.forall_mem_nil _⟩
  | toStringSource =>
    refine List.rel_append (List.rel_append (alike_refl ?_) (alike_branches fun _ => .makes)) (alike_refl (by decide))
    simp only [List.flatMap_cons, List.flatMap_nil, Step.lineTexts, List.cons_append, List.nil_append,
      List.forall_mem_cons]
    exact ⟨.append (by decide), by decide, by decide, by decide, List.forall_mem_nil _⟩
  | parseHeader =>
    refine alike_refl ?_
    obtain ⟨htry, hstatement⟩ :=
      plain_tryParameters (Conversion.ofEnumeration (o.stripping false) e) (o.stripping false)
    simp only [Conversion.body, Conversion.templateLine, List.flatMap_cons, List.flatMap_nil, Step.lineTexts,
      List.cons_append, List.nil_append, List.forall_mem_cons]
    refine ⟨.append (by decide), ?_, by decide, htry.append, by decide, .append (by decide), by decide, by decide,
      htry.append, by decide, .append (by decide), by decide, List.forall_mem_nil _⟩
    rw [List.append_assoc]
    exact hstatement.append
  | parseSource =>
    refine List.rel_append (List.rel_append (alike_refl ?_) (alike_branches fun _ => .reads)) (alike_refl ?_)
    · simp only [List.flatMap_cons, List.flatMap_nil, Step.lineTexts, List.cons_append, List.nil_append,
        List.forall_mem_cons]
      exact ⟨.append (by decide), by decide, List.forall_mem_nil _⟩
    · simp only [List.flatMap_cons, List.flatMap_nil, Step.lineTexts, List.cons_append, List.nil_append,
        List.forall_mem_cons]
      exact ⟨.append (by decide), by decide, (plain_tryParameters _ _).1.append, by decide, .append (by decide),
        .append (by decide), by decide, List.forall_mem_nil _⟩

/-- The steps of an enumeration with whole strings, beside those with what is left of them. -/
theorem alike_steps :
    List.Forall₂ (Alike e (byteLength (sharedPrefix e.memberNames)))
      ((Conversion.ofEnumeration (o.stripping false) e).steps (o.stripping false))
      ((Conversion.ofEnumeration (o.stripping true) e).steps (o.stripping true)) := by
  have hbanner : ∀ p : Passage, ∀ t ∈ (Step.banner p.title).lineTexts, Plain t := by
    intro p
    cases p <;> decide
  refine List.rel_flatMap (List.forall₂_same.mpr fun _ _ => rfl) ?_
  rintro p _ rfl
  exact .cons (.other (hbanner p)) (alike_body p)

/-- Where two members differ in their first characters, or there are no two, nothing is left out. -/
theorem sharedPrefix_eq_nil {names : List Text}
    (h : names.length < 2 ∨ ¬ ∃ c, ∀ m ∈ names, m.head? = some c) : sharedPrefix names = [] := by
  rcases h with hfew | hheads
  · exact sharedPrefix_of_length_lt hfew
  · cases hstart : sharedPrefix names with
    | nil => rfl
    | cons c s =>
      refine absurd ⟨c, fun m hm => ?_⟩ hheads
      obtain ⟨t, rfl⟩ := sharedPrefix_prefix_of_mem hm
      rw [hstart]
      rfl

end Passages

/-! ## Texts side by side -/

section Texts

variable {o : Options} {e : Enumeration} {es : List Enumeration}

theorem notMem_rows_generatedText (he : ∀ e ∈ es, e.Named) (ho : ∀ s ∈ o.texts, Unbroken s) :
    ∀ row ∈ rows (generatedText o es), '\n' ∉ row := by
  rw [rows_generatedText he ho]
  exact Layout.notMem_rows (unbroken_stepsOf he ho)

theorem generatedText_eq_ended (he : ∀ e ∈ es, e.Named) (ho : ∀ s ∈ o.texts, Unbroken s) :
    generatedText o es = ended (rows (generatedText o es)) := by
  rw [rows_generatedText he ho]
  exact render_eq_ended isWhole_stepsOf

/-- The rows of some enumerations are those of each, with an empty row between two. -/
theorem rows_generatedText_intercalate (he : ∀ e ∈ es, e.Named) (ho : ∀ s ∈ o.texts, Unbroken s) :
    rows (generatedText o es) = [[]].intercalate (es.map fun e => rows (generatedText o [e])) := by
  induction es with
  | nil => rfl
  | cons e es ih =>
    cases es with
    | nil => simp [List.intercalate]
    | cons f fs =>
      obtain ⟨hfirst, hothers⟩ := List.forall_mem_cons.mp he
      have hfirst := List.forall_mem_singleton.mpr hfirst
      have happend := generatedText_append o [e] (f :: fs)
      rw [if_pos ⟨List.cons_ne_nil _ _, List.cons_ne_nil _ _⟩, List.singleton_append,
        generatedText_eq_ended hfirst ho, generatedText_eq_ended hothers ho] at happend
      have hrows : generatedText o (e :: f :: fs) =
          ended (rows (generatedText o [e]) ++ [] :: rows (generatedText o (f :: fs))) := by
        rw [happend]
        simp [ended]
      rw [hrows, rows_ended, ih hothers]
      · simp [List.intercalate]
      · exact List.forall_mem_append.mpr ⟨notMem_rows_generatedText hfirst ho,
          List.forall_mem_cons.mpr ⟨List.not_mem_nil, notMem_rows_generatedText hothers ho⟩⟩

/-- Where as many rows stand between the separators, there are as many in all. -/
theorem length_intercalate {f g : Enumeration → List Text} (h : ∀ e ∈ es, (f e).length = (g e).length) :
    ([[]].intercalate (es.map f)).length = ([[]].intercalate (es.map g)).length := by
  induction es with
  | nil => rfl
  | cons e es ih =>
    obtain ⟨hfirst, hothers⟩ := List.forall_mem_cons.mp h
    have hlength := ih hothers
    cases es with
    | nil => simpa [List.intercalate] using hfirst
    | cons f fs =>
      simp only [List.intercalate, List.map_cons, List.intersperse_cons_cons, List.flatten_cons, List.length_append]
        at hlength ⊢
      omega

/-- The rows of one enumeration, with whole strings and with what is left of them. -/
theorem restrung_generatedText (he : e.Named) (ho : ∀ s ∈ o.texts, Unbroken s) :
    List.Forall₂ (Restrung e (byteLength (sharedPrefix e.memberNames))) (rows (generatedText (o.stripping false) [e]))
      (rows (generatedText (o.stripping true) [e])) := by
  have hsteps : ∀ strip, rows (generatedText (o.stripping strip) [e]) =
      ({} : Layout).rows ((Conversion.ofEnumeration (o.stripping strip) e).steps (o.stripping strip)) := by
    intro strip
    rw [rows_generatedText (o := o.stripping strip) (List.forall_mem_singleton.mpr he) ho, stepsOf,
      List.flatMap_singleton]
  rw [hsteps, hsteps]
  exact restrung_rows alike_steps {}

/-- **Stripping changes literals only.** Whether strings leave out the shared beginning or not, the rows are the same
but for the branches of members, whose strings lose their first `k` bytes. -/
theorem generatedText_stripping (he : ∀ e ∈ es, e.Named) (ho : ∀ s ∈ o.texts, '\n' ∉ s) :
    (rows (generatedText (o.stripping true) es)).length = (rows (generatedText (o.stripping false) es)).length ∧
    (∀ strip, generatedText (o.stripping strip) es = ended (rows (generatedText (o.stripping strip) es)) ∧
      rows (generatedText (o.stripping strip) es) =
        [[]].intercalate (es.map fun e => rows (generatedText (o.stripping strip) [e]))) ∧
    ∀ e ∈ es, ∃ k, k = byteLength (sharedPrefix e.memberNames) ∧ (∀ m ∈ e.memberNames, k < byteLength m) ∧
      ((e.memberNames.length < 2 ∨ ¬ ∃ c, ∀ m ∈ e.memberNames, m.head? = some c) → k = 0) ∧
      List.Forall₂ (Restrung e k) (rows (generatedText (o.stripping false) [e]))
        (rows (generatedText (o.stripping true) [e])) := by
  have hrestrung : ∀ e ∈ es, List.Forall₂ (Restrung e (byteLength (sharedPrefix e.memberNames)))
      (rows (generatedText (o.stripping false) [e])) (rows (generatedText (o.stripping true) [e])) := fun e hmem =>
    restrung_generatedText (he e hmem) ho
  have hparts := fun strip => rows_generatedText_intercalate (o := o.stripping strip) he ho
  refine ⟨?_, fun strip => ⟨generatedText_eq_ended he ho, hparts strip⟩, fun e hmem => ?_⟩
  · rw [hparts, hparts]
    exact length_intercalate fun e hmem => (hrestrung e hmem).length_eq.symm
  · refine ⟨_, rfl, fun m hm => ?_, fun h => ?_, hrestrung e hmem⟩
    · exact byteLength_sharedPrefix_lt (fun s hs => ((he e hmem).2 s hs).1) hm
    · rw [sharedPrefix_eq_nil h, byteLength_nil]

end Texts

/-- Members that share their first letter only, and an enumeration without members behind them. -/
theorem generatedText_stripping_letter :
    (∀ strip, rows (generatedText (Options.stripping {} strip)
        [⟨['E'], [⟨['A', 'X'], 9⟩, ⟨['A', 'Y'], 13⟩], ⟨0, 17⟩⟩, ⟨['F'], [], ⟨20, 26⟩⟩]) =
      rows (generatedText (Options.stripping {} strip) [⟨['E'], [⟨['A', 'X'], 9⟩, ⟨['A', 'Y'], 13⟩], ⟨0, 17⟩⟩]) ++
        ([] :: rows (generatedText (Options.stripping {} strip) [⟨['F'], [], ⟨20, 26⟩⟩]))) ∧
      List.Forall₂ (Restrung ⟨['E'], [⟨['A', 'X'], 9⟩, ⟨['A', 'Y'], 13⟩], ⟨0, 17⟩⟩ 1)
        (rows (generatedText (Options.stripping {} false) [⟨['E'], [⟨['A', 'X'], 9⟩, ⟨['A', 'Y'], 13⟩], ⟨0, 17⟩⟩]))
        (rows (generatedText (Options.stripping {} true) [⟨['E'], [⟨['A', 'X'], 9⟩, ⟨['A', 'Y'], 13⟩], ⟨0, 17⟩⟩])) := by
  have hname : ∀ {c : Char}, c.isAlpha = true → EnumName [c] := fun h => .mk h (List.forall_mem_nil _)
  have hmember : ∀ {c d : Char}, c.isAlpha = true → d.isAlpha = true → MemberName [c, d] := fun hc hd =>
    ⟨List.cons_ne_nil _ _, List.forall_mem_cons.mpr
      ⟨isWord_of_isAlpha hc, List.forall_mem_singleton.mpr (isWord_of_isAlpha hd)⟩⟩
  have hnamed : ∀ e ∈ [(⟨['E'], [⟨['A', 'X'], 9⟩, ⟨['A', 'Y'], 13⟩], ⟨0, 17⟩⟩ : Enumeration),
      ⟨['F'], [], ⟨20, 26⟩⟩], e.Named := by
    refine List.forall_mem_cons.mpr ⟨⟨hname rfl, ?_⟩, List.forall_mem_singleton.mpr ⟨hname rfl, ?_⟩⟩
    · exact List.forall_mem_cons.mpr ⟨hmember rfl rfl, List.forall_mem_singleton.mpr (hmember rfl rfl)⟩
    · exact List.forall_mem_nil _
  obtain ⟨-, hparts, hrows⟩ := generatedText_stripping (o := {}) hnamed (by decide)
  obtain ⟨k, rfl, -, -, hrestrung⟩ := hrows _ List.mem_cons_self
  refine ⟨fun strip => ?_, hrestrung⟩
  rw [(hparts strip).2]
  simp [List.intercalate]

end EnumStrings
