import Mathlib.Data.List.Forall2
import EnumStrings.Diagnostic
import EnumStrings.Proofs.DeclarationReading
import EnumStrings.Proofs.DeclarationShape
import EnumStrings.Proofs.Scanning

/-!
# Every way to write an enum is read

A definition is a name and the names of members. `Spelling` tells in which lines a definition may be written: on one
line with the members between braces, or with one member on each line and the braces where the author wants them.
`Page` tells in which lines definitions may follow each other: at least one blank line stands between two of them.

Whatever the spelling, the terminators and the blank lines, the source is read back as the definitions, in their order,
and no group is skipped (`definitions_ofSource`).
-/

namespace EnumStrings

/-- An enum as its author thinks of it. -/
structure Definition where
  name : Text
  members : List Text
deriving DecidableEq, Repr

/-- What a declaration found in a source defines. -/
def Enumeration.definition (e : Enumeration) : Definition := ⟨e.name, e.memberNames⟩

/-! ## Spellings -/

/-- Members between braces: enumerators with commas between them, and perhaps one behind the last. -/
inductive InlineMembers : List Text → Text → Prop
  | none {w : Text} : Blanks w → InlineMembers [] w
  | last {m t : Text} : Enumerator m t → InlineMembers [m] t
  | more {m t s : Text} {ms : List Text} : Enumerator m t → InlineMembers ms s → InlineMembers (m :: ms) (t ++ ',' :: s)

/-- The lines in front of the members, with an opening brace behind the head and no comment, or below it, or nowhere. -/
inductive Opening (name : Text) : List Text → Prop
  | behind {h w v : Text} : Head name h → Blanks w → Blanks v → Opening name [h ++ (w ++ '{' :: v)]
  | below {h w c x v d : Text} : Head name h → Blanks w → CommentPart c → Blanks x → Blanks v → CommentPart d →
      Opening name [h ++ (w ++ c), x ++ '{' :: (v ++ d)]
  | absent {h w c : Text} : Head name h → Blanks w → CommentPart c → Opening name [h ++ (w ++ c)]

/-- The line behind the members, if there is one. -/
inductive Closing : List Text → Prop
  | absent : Closing []
  | present {x k w c : Text} : Blanks x → SemicolonPart k → Blanks w → CommentPart c →
      Closing [x ++ '}' :: (k ++ (w ++ c))]

/-- The lines in which a definition may be written. -/
inductive Spelling : Definition → List Text → Prop
  | inline {name h w b k v c : Text} {ms : List Text} : Head name h → Blanks w → InlineMembers ms b →
      SemicolonPart k → Blanks v → CommentPart c →
      Spelling ⟨name, ms⟩ [h ++ (w ++ '{' :: (b ++ '}' :: (k ++ (v ++ c))))]
  | lines {name : Text} {ms opening body closing : List Text} : Opening name opening →
      List.Forall₂ MemberLine ms body → Closing closing → Spelling ⟨name, ms⟩ (opening ++ (body ++ closing))

/-- The lines in which definitions may be written one after the other, with blank lines between them. -/
inductive Page : List Definition → List Text → Prop
  | nil : Page [] []
  | blank {w : Text} {ds : List Definition} {ls : List Text} : Blanks w → Page ds ls → Page ds (w :: ls)
  | last {d : Definition} {ls : List Text} : Spelling d ls → Page [d] ls
  | cons {d : Definition} {w : Text} {ds : List Definition} {g ls : List Text} : Spelling d g → Blanks w → Page ds ls →
      Page (d :: ds) (g ++ w :: ls)

/-! ## Members -/

/-- Lines for members declare these members. -/
theorem filterMap_memberName?_lines {ms ls : List Text} (h : List.Forall₂ MemberLine ms ls) :
    ls.filterMap memberName? = ms := by
  induction h with
  | nil => rfl
  | cons h _ ih => rw [List.filterMap_cons_some (memberName?_memberLine h), ih]

/-- White space declares no member. -/
theorem memberName?_blanks {w : Text} (hw : Blanks w) : memberName? w = none := by
  simpa using memberName?_eq_none (s := []) hw (by simp)

/-- A line that starts with a brace declares no member. -/
theorem memberName?_brace {w s : Text} {c : Char} (hw : Blanks w) (hc : c = '{' ∨ c = '}') :
    memberName? (w ++ c :: s) = none := by
  refine memberName?_eq_none hw (forall_head?_cons ?_ _)
  rcases hc with rfl | rfl <;> exact ⟨by decide, isWord_delimiter (by decide)⟩

/-- Members between braces are the enumerators between the commas. -/
theorem InlineMembers.filterMap_pieces {ms : List Text} {b : Text} (h : InlineMembers ms b) :
    (b.splitOn ',').filterMap memberName? = ms := by
  induction h with
  | none hw =>
    rw [List.splitOn_eq_singleton (hw.notMem (by decide)), List.filterMap_cons_none (memberName?_blanks hw)]
    rfl
  | last h =>
    rw [List.splitOn_eq_singleton h.notMem.1, List.filterMap_cons_some (memberName?_enumerator h)]
    rfl
  | more h _ ih =>
    rw [List.splitOn_append_cons_self_of_not_mem h.notMem.1, List.filterMap_cons_some (memberName?_enumerator h), ih]

/-- Members between braces have no closing brace among them. -/
theorem InlineMembers.notMem {ms : List Text} {b : Text} (h : InlineMembers ms b) : '}' ∉ b := by
  induction h with
  | none hw => exact hw.notMem (by decide)
  | last h => exact h.notMem.2
  | more h _ ih =>
    intro hc
    rcases List.mem_append.mp hc with hc | hc
    · exact h.notMem.2 hc
    · exact ih ((List.mem_cons.mp hc).resolve_left (by decide))

/-! ## Reading one definition -/

/-- The lines in front of the members declare the enum, and no member. -/
theorem Opening.read {name : Text} {ls : List Text} (h : Opening name ls) :
    ∃ l rest d, ls = l :: rest ∧ Declaration.ofLine? l = some d ∧ d.name = name ∧
      (d.pieces ++ rest).filterMap memberName? = [] := by
  cases h with
  | behind hh hw hv =>
    have hopen : inlineBody? _ = some _ := inlineBody?_open (hv.notMem (by decide))
    refine ⟨_, [], _, rfl, ofLine?_append_brace hh hw hopen, rfl, ?_⟩
    simp [Declaration.pieces, (InlineMembers.none hv).filterMap_pieces]
  | below hh hw hc hx hv hd =>
    refine ⟨_, _, _, rfl, ofLine?_append_trailing hh hw hc, rfl, ?_⟩
    simp [Declaration.pieces, memberName?_brace hx]
  | absent hh hw hc => exact ⟨_, [], _, rfl, ofLine?_append_trailing hh hw hc, rfl, rfl⟩

/-- The line behind the members declares none. -/
theorem Closing.filterMap {ls : List Text} (h : Closing ls) : ls.filterMap memberName? = [] := by
  cases h with
  | absent => rfl
  | present hx _ _ _ => exact List.filterMap_cons_none (memberName?_brace hx (Or.inr rfl))

/-- However a definition is written, its first line declares the enum, and the texts behind declare the members. -/
theorem Spelling.read {d : Definition} {ls : List Text} (h : Spelling d ls) :
    ∃ l rest declared, ls = l :: rest ∧ Declaration.ofLine? l = some declared ∧ declared.name = d.name ∧
      (declared.pieces ++ rest).filterMap memberName? = d.members := by
  cases h with
  | inline hh hw hb hk hv hc =>
    have hclosed := inlineBody?_closed hb.notMem hk hv hc
    refine ⟨_, [], _, rfl, ofLine?_append_brace hh hw hclosed, rfl, ?_⟩
    simp [Declaration.pieces, hb.filterMap_pieces]
  | @lines _ _ _ body closing ho hb hc =>
    obtain ⟨l, rest, declared, rfl, hline, hname, hnone⟩ := ho.read
    refine ⟨l, rest ++ (body ++ closing), declared, rfl, hline, hname, ?_⟩
    rw [← List.append_assoc, List.filterMap_append, hnone, List.filterMap_append, filterMap_memberName?_lines hb,
      hc.filterMap]
    simp

/-- A group whose lines spell a definition is read as that definition. -/
theorem Spelling.ofGroup {d : Definition} {g : Group} (h : Spelling d (g.lines.map (·.text))) :
    ∃ e, Enumeration.ofGroup g = .ok e ∧ e.definition = d := by
  obtain ⟨l, rest, declared, hlines, hline, hname, hmembers⟩ := h.read
  obtain ⟨rfl, rfl⟩ := List.cons.inj hlines
  obtain ⟨e, hok, hename, -, hemembers⟩ := Enumeration.ofGroup_eq_ok hline
  exact ⟨e, hok, by rw [Enumeration.definition, hename, hname, hemembers, hmembers]⟩

/-! ## Lines that are not blank -/

/-- A text is not blank if its beginning is not. -/
theorem not_blank_append {s : Text} (h : ∃ c ∈ s, isBlank c = false) (t : Text) :
    ∃ c ∈ s ++ t, isBlank c = false := by
  obtain ⟨c, hc, hb⟩ := h
  exact ⟨c, List.mem_append_left t hc, hb⟩

/-- A head is not blank. -/
theorem Head.not_blank {name h : Text} (hh : Head name h) : ∃ c ∈ h, isBlank c = false := by
  obtain ⟨⟩ := hh
  exact ⟨'e', by simp, by decide⟩

/-- The lines in front of the members are not blank. -/
theorem Opening.not_blank {name : Text} {ls : List Text} (h : Opening name ls) :
    ∀ l ∈ ls, ∃ c ∈ l, isBlank c = false := by
  cases h with
  | behind hh _ _ => exact List.forall_mem_singleton.mpr (not_blank_append hh.not_blank _)
  | below hh _ _ _ _ _ =>
    exact List.forall_mem_cons.mpr ⟨not_blank_append hh.not_blank _,
      List.forall_mem_singleton.mpr ⟨'{', by simp, by decide⟩⟩
  | absent hh _ _ => exact List.forall_mem_singleton.mpr (not_blank_append hh.not_blank _)

/-- A line for a member is not blank. -/
theorem MemberLine.not_blank {name l : Text} (hl : MemberLine name l) : ∃ c ∈ l, isBlank c = false := by
  obtain ⟨⟨_, hn, _, _⟩, _, _, _⟩ := hl
  obtain ⟨c, s, rfl⟩ := List.exists_cons_of_ne_nil hn.1
  exact ⟨c, by simp, isBlank_eq_false_of_isWord (hn.2 c List.mem_cons_self)⟩

/-- Lines for members are not blank. -/
theorem memberLines_not_blank {ms ls : List Text} (h : List.Forall₂ MemberLine ms ls) :
    ∀ l ∈ ls, ∃ c ∈ l, isBlank c = false := by
  induction h with
  | nil => simp
  | cons h _ ih => exact List.forall_mem_cons.mpr ⟨h.not_blank, ih⟩

/-- The line behind the members is not blank. -/
theorem Closing.not_blank {ls : List Text} (h : Closing ls) : ∀ l ∈ ls, ∃ c ∈ l, isBlank c = false := by
  cases h with
  | absent => simp
  | present _ _ _ _ => exact List.forall_mem_singleton.mpr ⟨'}', by simp, by decide⟩

/-- No line of a definition is blank. -/
theorem Spelling.not_blank {d : Definition} {ls : List Text} (h : Spelling d ls) :
    ∀ l ∈ ls, ∃ c ∈ l, isBlank c = false := by
  cases h with
  | inline hh _ _ _ _ _ => exact List.forall_mem_singleton.mpr (not_blank_append hh.not_blank _)
  | lines ho hb hc =>
    exact List.forall_mem_append.mpr
      ⟨ho.not_blank, List.forall_mem_append.mpr ⟨memberLines_not_blank hb, hc.not_blank⟩⟩

/-! ## Reading a page -/

/-- A text that is not blank is not taken for a blank line. -/
theorem Excerpt.isBlank_eq_false {e : Excerpt} (h : ∃ c ∈ e.text, EnumStrings.isBlank c = false) :
    e.isBlank = false := by
  obtain ⟨c, hc, hb⟩ := h
  exact List.all_eq_false.mpr ⟨c, hc, by simp [hb]⟩

/-- White space is taken for a blank line. -/
theorem Excerpt.isBlank_eq_true {e : Excerpt} (h : Blanks e.text) : e.isBlank = true :=
  List.all_eq_true.mpr h

/-- Lines that spell a definition are one group, which is read as the definition. -/
theorem Spelling.ofLines {d : Definition} {xs : List Excerpt} (h : Spelling d (xs.map (·.text))) :
    ∃ e, (Group.ofLines xs).map Enumeration.ofGroup = [.ok e] ∧ e.definition = d := by
  have hblank : ∀ x ∈ xs, x.isBlank = false := fun x hx =>
    Excerpt.isBlank_eq_false (h.not_blank x.text (List.mem_map_of_mem hx))
  obtain ⟨l, rest, -, hlines, -⟩ := h.read
  obtain ⟨x, xs, rfl, -, -⟩ := List.map_eq_cons_iff.mp hlines
  obtain ⟨hx, hxs⟩ := List.forall_mem_cons.mp hblank
  have hgroup : Group.ofLines (x :: xs) = [⟨x, xs⟩] := by
    rw [← List.append_nil (x :: xs), Group.ofLines_run hx hxs (by simp), Group.ofLines]
  obtain ⟨e, hok, he⟩ := Spelling.ofGroup (g := ⟨x, xs⟩) h
  exact ⟨e, by rw [hgroup, List.map_singleton, hok], he⟩

/-- The lines of a page are read as its definitions. -/
theorem Page.ofLines {ds : List Definition} {ls : List Text} (h : Page ds ls) : ∀ {xs : List Excerpt},
    xs.map (·.text) = ls → ∃ es : List Enumeration, (Group.ofLines xs).map Enumeration.ofGroup = es.map .ok ∧
      es.map Enumeration.definition = ds := by
  induction h with
  | nil =>
    intro xs hxs
    obtain rfl := List.map_eq_nil_iff.mp hxs
    exact ⟨[], by simp [Group.ofLines], rfl⟩
  | blank hw _ ih =>
    intro xs hxs
    obtain ⟨b, xs, rfl, rfl, htexts⟩ := List.map_eq_cons_iff.mp hxs
    rw [Group.ofLines_cons_blank (Excerpt.isBlank_eq_true hw)]
    exact ih htexts
  | last hd =>
    intro xs hxs
    subst hxs
    obtain ⟨e, hok, he⟩ := hd.ofLines
    exact ⟨[e], hok, by rw [List.map_singleton, he]⟩
  | cons hd hw _ ih =>
    intro xs hxs
    obtain ⟨gs, ys, rfl, rfl, hys⟩ := List.map_eq_append_iff.mp hxs
    obtain ⟨b, xs, rfl, rfl, htexts⟩ := List.map_eq_cons_iff.mp hys
    obtain ⟨e, hok, he⟩ := hd.ofLines
    obtain ⟨es, hoks, hes⟩ := ih htexts
    refine ⟨e :: es, ?_, by rw [List.map_cons, he, hes]⟩
    rw [Group.ofLines_append_cons (Excerpt.isBlank_eq_true hw), List.map_append, hok, hoks]
    rfl

/-- **Every way to write definitions is read**: the enumerations are the definitions in their order, and nothing is
told about the source but the warnings about these. -/
theorem definitions_ofSource {ds : List Definition} {ls : List Text} {src : Text} (hp : Page ds ls)
    (hs : Lined ls src) :
    (Listing.ofSource src).enumerations.map Enumeration.definition = ds ∧
      Diagnostic.errorCount (Listing.ofSource src).diagnostics = 0 ∧
      (Listing.ofSource src).diagnostics = (Listing.ofSource src).enumerations.flatMap Diagnostic.ofEnumeration := by
  obtain ⟨es, hresults, hes⟩ := hp.ofLines hs.map_text_lines
  have hresults : (Listing.ofSource src).results = es.map .ok := hresults
  have henumerations : (Listing.ofSource src).enumerations = es := by
    simp [Listing.enumerations, hresults, List.filterMap_map, Function.comp_def, Except.toOption]
  have hdiagnostics : (Listing.ofSource src).diagnostics = es.flatMap Diagnostic.ofEnumeration := by
    simp [Listing.diagnostics, hresults, List.flatMap_map, Diagnostic.ofResult]
  rw [henumerations, hdiagnostics]
  refine ⟨hes, ?_, rfl⟩
  refine List.countP_eq_zero.mpr fun d hd => ?_
  obtain ⟨e, -, hd⟩ := List.mem_flatMap.mp hd
  simp [Diagnostic.severity_of_mem_ofEnumeration hd]

/-- Two definitions, one on a line and one below, are read from a source with all three terminators. -/
theorem definitions_ofSource_two : ∃ ls : List Text,
    Page [⟨['E'], [['A'], ['B']]⟩, ⟨['F'], [['A']]⟩] ls ∧
      Lined ls "enum class E : u8 \x7b A = +0x1'Fu, B \x7d;// \x7d\r\n \renum F\n\t\x7b\rA ,// x\r\n\x7d;".toList ∧
      (Listing.ofSource
        "enum class E : u8 \x7b A = +0x1'Fu, B \x7d;// \x7d\r\n \renum F\n\t\x7b\rA ,// x\r\n\x7d;".toList
        ).enumerations.map Enumeration.definition = [⟨['E'], [['A'], ['B']]⟩, ⟨['F'], [['A']]⟩] := by
  have hnone : Blanks [] := List.forall_mem_nil _
  have hspace : Blanks [' '] := by decide
  have hname : ∀ {c : Char}, c.isAlpha = true → EnumName [c] := fun h => .mk h (List.forall_mem_nil _)
  have hmember : ∀ {c : Char}, c.isAlpha = true → MemberName [c] := fun h =>
    ⟨List.cons_ne_nil _ _, List.forall_mem_singleton.mpr (isWord_of_isAlpha h)⟩
  have htype : TypeWord "u8".toList :=
    .mk (c := 'u') rfl (List.forall_mem_singleton.mpr (by rw [isTypeChar, isWord_of_isDigit rfl, Bool.true_or]))
  have hE : Head ['E'] ([] ++ ("enum".toList ++ (([' '] ++ "class".toList) ++ ([' '] ++ (['E'] ++
      ([' '] ++ ':' :: ([' '] ++ "u8".toList))))))) :=
    .mk hnone (.present hspace (by simp) (by simp [qualifiers])) hspace (by simp) (hname rfl)
      (.present hspace hspace (.one htype))
  have hA : Enumerator ['A']
      ([' '] ++ (['A'] ++ (([' '] ++ '=' :: ([' '] ++ (['+'] ++ ("0x1'F".toList ++ ['u'])))) ++ []))) :=
    .mk hspace (hmember rfl) (.present hspace hspace (.mk .plus
      (.hexadecimal (Or.inl rfl) (by simp) (List.all_eq_true.mp (by decide))) (by simp [isSuffix]))) hnone
  have hB : Enumerator ['B'] ([' '] ++ (['B'] ++ ([] ++ [' ']))) := .mk hspace (hmember rfl) .absent hspace
  have hfirst := Spelling.inline hE hspace (.more hA (.last hB)) (.present hnone) hnone
    (.present (c := [' ', '\x7d']) (by simp))
  have hF : Head ['F'] ([] ++ ("enum".toList ++ ([] ++ ([' '] ++ (['F'] ++ []))))) :=
    .mk hnone .absent hspace (by simp) (hname rfl) .absent
  have hopening := Opening.below hF hnone .absent (x := ['\t']) (by decide) hnone .absent
  have hline : MemberLine ['A'] (([] ++ (['A'] ++ ([] ++ [' ']))) ++ ([','] ++ ([] ++ ['/', '/', ' ', 'x']))) :=
    .mk (.mk hnone (hmember rfl) .absent hspace) .present hnone (.present (by simp))
  have hclosing := Closing.present hnone (.present hnone) hnone .absent
  have hp := Page.cons hfirst hspace (.last (.lines hopening (.cons hline .nil) hclosing))
  refine ⟨_, hp, ?lined, (definitions_ofSource hp ?lined).1⟩
  exact .cons (by decide) .both (by decide) <| .cons (by decide) .carriageReturn (by decide) <|
    .cons (by decide) .lineFeed (by decide) <| .cons (by decide) .carriageReturn (by decide) <|
    .cons (by decide) .both (by decide) <| .last (by decide) (by decide)

end EnumStrings
