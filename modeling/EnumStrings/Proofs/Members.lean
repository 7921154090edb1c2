import Mathlib.Data.List.Infix
import Mathlib.Data.List.TakeWhile
import EnumStrings.Proofs.DeclarationLine
import EnumStrings.Proofs.Surface

/-!
# Which members a group has

A text declares a member exactly if it is a line for that member (`memberName?_eq_some_iff`). This is the converse of
the reading lemmas: digits, a sign and an initialiser have stood where they have been skipped
(`exists_digits_of_skipDigits?`, `exists_initialiser_of_skipInitialiser?`).

The texts of a group that may declare a member are the pieces between the commas of the text that is searched on the
declaration line, and then the other lines. Those that are lines for a member are kept, in their order, and each of them
declares the one member named by its first word (`memberNames_ofGroup`).

So it makes no difference whether such texts stand between the braces of one line or on lines of their own with a comma
behind each but the last (`ofGroup_onOneLine`): the comma behind a text changes nothing about the member that it
declares (`memberName?_append_comma`), and what is searched between the braces is cut into the same texts again.
-/

namespace EnumStrings

/-! ## What is read is an enumerator -/

section Literals

variable {s r name : Text} {p : Char → Bool}

/-- One or more characters of a kind have been skipped. -/
theorem exists_run_of_skipSome? (h : skipSome? p s = some r) :
    ∃ w, w ≠ [] ∧ (∀ c ∈ w, p c = true) ∧ s = w ++ r := by
  cases s with
  | nil => cases h
  | cons c s =>
    rw [skipSome?] at h
    split at h
    · rename_i hc
      obtain rfl := Option.some.inj h
      refine ⟨c :: s.takeWhile p, List.cons_ne_nil _ _, List.forall_mem_cons.mpr ⟨hc, ?_⟩, ?_⟩
      · exact fun _ => List.mem_takeWhile_imp
      · rw [List.cons_append, List.takeWhile_append_dropWhile]
    · cases h

/-- The digits of a literal have stood in front of what is left behind them. -/
theorem exists_digits_of_skipDigits? (h : skipDigits? s = some r) : ∃ d, Digits d ∧ s = d ++ r := by
  unfold skipDigits? at h
  split at h
  · obtain ⟨w, hne, hw, rfl⟩ := exists_run_of_skipSome? h
    exact ⟨_, .hexadecimal (.inl rfl) hne hw, rfl⟩
  · obtain ⟨w, hne, hw, rfl⟩ := exists_run_of_skipSome? h
    exact ⟨_, .hexadecimal (.inr rfl) hne hw, rfl⟩
  · obtain ⟨w, hne, hw, rfl⟩ := exists_run_of_skipSome? h
    exact ⟨_, .binary (.inl rfl) hne hw, rfl⟩
  · obtain ⟨w, hne, hw, rfl⟩ := exists_run_of_skipSome? h
    exact ⟨_, .binary (.inr rfl) hne hw, rfl⟩
  · rename_i c s _ _ _ _
    split at h
    · rename_i hc
      obtain rfl := Option.some.inj h
      refine ⟨c :: s.takeWhile isDecimalDigit, .decimal hc ?_, ?_⟩
      · exact fun _ => List.mem_takeWhile_imp
      · rw [List.cons_append, List.takeWhile_append_dropWhile]
    · cases h
  · cases h

/-- A sign has stood in front of what is left behind it. -/
theorem exists_sign (s : Text) : ∃ sign, SignPart sign ∧ s = sign ++ skipSign s := by
  unfold skipSign
  split
  · exact ⟨_, .minus, rfl⟩
  · exact ⟨_, .plus, rfl⟩
  · exact ⟨_, .absent, rfl⟩

/-- The initialiser of a member has stood in front of what is left behind it, with white space between them. -/
theorem exists_initialiser_of_skipInitialiser? (h : skipInitialiser? s = some r) :
    ∃ i v, InitialiserPart i ∧ Blanks v ∧ s = i ++ (v ++ r) := by
  obtain ⟨w, hw, hs⟩ := exists_blanks s
  unfold skipInitialiser? at h
  split at h
  · rename_i t hequals
    obtain ⟨u, hu, rfl⟩ := Option.map_eq_some_iff.mp h
    obtain ⟨x, hx, ht⟩ := exists_blanks t
    obtain ⟨sign, hsign, hsigned⟩ := exists_sign (skipBlanks t)
    obtain ⟨digits, hdigits, hunsigned⟩ := exists_digits_of_skipDigits? hu
    obtain ⟨v, hv, hrest⟩ := exists_blanks (u.dropWhile isSuffix)
    have hsuffix : ∀ c ∈ u.takeWhile isSuffix, isSuffix c = true := fun _ => List.mem_takeWhile_imp
    have hbehind : u = u.takeWhile isSuffix ++ (v ++ skipBlanks (u.dropWhile isSuffix)) := by
      rw [← hrest, List.takeWhile_append_dropWhile]
    refine ⟨_, v, .present hw hx (.mk hsign hdigits hsuffix), hv, ?_⟩
    conv => lhs; rw [hs, hequals, ht, hsigned, hunsigned, hbehind]
    simp only [List.append_assoc, List.cons_append]
  · obtain rfl := Option.some.inj h
    exact ⟨[], w, .absent, hw, hs⟩

/-- Behind the name of a member stands its initialiser, perhaps a comma, and perhaps a comment. -/
theorem memberLine_of_endsEnumerator {w : Text} (hw : Blanks w) (hname : MemberName name)
    (h : endsEnumerator s = true) : MemberLine name (w ++ (name ++ s)) := by
  have hparts : ∃ r, skipInitialiser? s = some r ∧ ∃ k t, CommaPart k ∧ isTrailing t = true ∧ r = k ++ t := by
    unfold endsEnumerator at h
    split at h
    · rename_i t hskip
      exact ⟨_, hskip, [','], t, .present, h, rfl⟩
    · rename_i r _ hskip
      exact ⟨_, hskip, [], r, .absent, h, rfl⟩
    · cases h
  obtain ⟨r, hskip, k, t, hk, htrailing, rfl⟩ := hparts
  obtain ⟨i, v, hi, hv, rfl⟩ := exists_initialiser_of_skipInitialiser? hskip
  obtain ⟨x, c, hx, hc, rfl⟩ := isTrailing_iff.mp htrailing
  have hline : MemberLine name (w ++ (name ++ (i ++ v)) ++ (k ++ (x ++ c))) := .mk (.mk hw hname hi hv) hk hx hc
  simpa only [List.append_assoc] using hline

/-- A text declares a member exactly if it is a line for that member. -/
theorem memberName?_eq_some_iff : memberName? s = some name ↔ MemberLine name s := by
  refine ⟨fun h => ?_, memberName?_memberLine⟩
  obtain ⟨m, hm, rfl⟩ := Option.map_eq_some_iff.mp h
  unfold enumerator? at hm
  dsimp only at hm
  split at hm
  · rename_i hparts
    obtain ⟨hne, hend⟩ := hparts
    obtain rfl := Option.some.inj hm
    obtain ⟨w, hw, hs⟩ := exists_blanks s
    have hname : MemberName ((skipBlanks s).takeWhile isWord) :=
      ⟨hne, fun _ => List.mem_takeWhile_imp⟩
    have hline := memberLine_of_endsEnumerator hw hname hend
    rwa [List.takeWhile_append_dropWhile, ← hs] at hline
  · cases hm

end Literals

/-! ## The texts that are kept -/

/-- The text is a line for a member. -/
def DeclaresMember (s : Text) : Prop := ∃ name, MemberLine name s

/-- The word at the front of a text, behind white space. -/
def firstWord (s : Text) : Text := (skipBlanks s).takeWhile isWord

section Kept

variable {s name : Text} {g : Group} {e : Enumeration}

theorem declaresMember_iff : DeclaresMember s ↔ (memberName? s).isSome = true := by
  simp only [DeclaresMember, ← memberName?_eq_some_iff, Option.isSome_iff_exists]

instance (s : Text) : Decidable (DeclaresMember s) := decidable_of_iff _ declaresMember_iff.symm

/-- A member is named by the first word of its text. -/
theorem eq_firstWord_of_memberName? (h : memberName? s = some name) : name = firstWord s := by
  obtain ⟨m, hm, rfl⟩ := Option.map_eq_some_iff.mp h
  unfold enumerator? at hm
  dsimp only at hm
  split at hm
  · obtain rfl := Option.some.inj hm
    rfl
  · cases hm

/-- However a line for a member is taken apart, the name is its first word. -/
theorem MemberLine.eq_firstWord (h : MemberLine name s) : name = firstWord s :=
  eq_firstWord_of_memberName? (memberName?_eq_some_iff.mpr h)

theorem memberName?_eq (s : Text) : memberName? s = if DeclaresMember s then some (firstWord s) else none := by
  by_cases h : DeclaresMember s
  · obtain ⟨name, hline⟩ := h
    rw [if_pos ⟨name, hline⟩, ← hline.eq_firstWord]
    exact memberName?_eq_some_iff.mpr hline
  · rw [if_neg h, ← Option.not_isSome_iff_eq_none]
    exact mt declaresMember_iff.mpr h

/-- The members that some texts declare are the first words of those that are lines for a member. -/
theorem filterMap_memberName?_eq (ts : List Text) :
    ts.filterMap memberName? = (ts.filter DeclaresMember).map firstWord := by
  induction ts with
  | nil => rfl
  | cons t ts ih =>
    by_cases h : DeclaresMember t
    · have hsome : memberName? t = some (firstWord t) := by rw [memberName?_eq, if_pos h]
      rw [List.filterMap_cons_some hsome, List.filter_cons, if_pos (decide_eq_true h), List.map_cons, ih]
    · have hnone : memberName? t = none := by rw [memberName?_eq, if_neg h]
      rw [List.filterMap_cons_none hnone, List.filter_cons, if_neg (mt of_decide_eq_true h), ih]

/-- **The members of a group are the first words of its lines for members**: of the pieces between commas on the
declaration line, and of the other lines. -/
theorem memberNames_ofGroup (hline : ∀ c ∈ g.declaration.text, isTerminator c = false)
    (h : Enumeration.ofGroup g = .ok e) :
    (∃ searched, DeclarationLine e.name searched g.declaration.text ∧
      e.memberNames = (((searched.map (·.splitOn ',')).getD [] ++ g.body.map (·.text)).filter DeclaresMember).map
        firstWord) ∧
      ∀ t name, MemberLine name t → name = firstWord t := by
  have hn : '\n' ∉ g.declaration.text := fun h => absurd (hline _ h) (by decide)
  obtain ⟨d, hd, rfl⟩ := Enumeration.ofGroup_inv h
  refine ⟨⟨d.body.map (·.text), declarationLine_of_ofLine? hd hn, ?_⟩, fun t name => MemberLine.eq_firstWord⟩
  have hpieces : d.pieces = ((d.body.map (·.text)).map (·.splitOn ',')).getD [] := by
    rw [Declaration.pieces]
    cases d.body <;> rfl
  rw [← hpieces, ← filterMap_memberName?_eq, ← Group.map_text_candidates, ← map_text_filterMap_enumerator?,
    Enumeration.memberNames]

end Kept

set_option maxRecDepth 4000 in
/-- Digits of every script count, and a literal without digits, a second word or a comment that stands alone makes a
text that is passed over. -/
theorem memberNames_ofGroup_mixed :
    (∀ c ∈ "enum E \x7b A = 0x1F'uL , B C, D = 0x\x7d".toList, isTerminator c = false) ∧
      ∃ e, Enumeration.ofGroup ⟨⟨"enum E \x7b A = 0x1F'uL , B C, D = 0x\x7d".toList, 0⟩,
          [⟨"// F".toList, 37⟩, ⟨"\tG = -\u0663'4 , // g".toList, 42⟩]⟩ = .ok e ∧
        e.memberNames = ["A".toList, "G".toList] := by
  have hline : ∀ c ∈ "enum E \x7b A = 0x1F'uL , B C, D = 0x\x7d".toList, isTerminator c = false := by
    have hall : "enum E \x7b A = 0x1F'uL , B C, D = 0x\x7d".toList.all (!isTerminator ·) = true := by decide
    intro c hc
    simpa using List.all_eq_true.mp hall c hc
  have hd : Declaration.ofLine? "enum E \x7b A = 0x1F'uL , B C, D = 0x\x7d".toList =
      some ⟨"E".toList, some ⟨" A = 0x1F'uL , B C, D = 0x".toList, 8⟩⟩ := by decide
  obtain ⟨e, he, -⟩ := Enumeration.ofGroup_eq_ok (g := ⟨⟨"enum E \x7b A = 0x1F'uL , B C, D = 0x\x7d".toList, 0⟩,
    [⟨"// F".toList, 37⟩, ⟨"\tG = -\u0663'4 , // g".toList, 42⟩]⟩) hd
  obtain ⟨⟨searched, hdeclared, hmembers⟩, -⟩ := memberNames_ofGroup hline he
  obtain ⟨-, rfl⟩ := hdeclared.unique (declarationLine_of_ofLine? hd (by decide)) (by decide)
  exact ⟨hline, e, he, hmembers.trans (by decide)⟩

/-! ## Texts on one line and on lines of their own -/

/-- A text that can stand between two commas inside braces as well as on a line of its own. -/
structure Portable (p : Text) : Prop where
  comma : ',' ∉ p
  brace : '}' ∉ p
  slashes : ¬ ['/', '/'] <:+: p
  terminator : ∀ c ∈ p, isTerminator c = false

theorem portable_iff {p : Text} :
    Portable p ↔ ',' ∉ p ∧ '}' ∉ p ∧ ¬ ['/', '/'] <:+: p ∧ p.all (!isTerminator ·) = true := by
  constructor
  · intro h
    exact ⟨h.comma, h.brace, h.slashes, by simpa using h.terminator⟩
  · rintro ⟨hcomma, hbrace, hslashes, hterminator⟩
    exact ⟨hcomma, hbrace, hslashes, by simpa using hterminator⟩

instance (p : Text) : Decidable (Portable p) := decidable_of_iff _ portable_iff.symm

/-- The beginning of a declaration with braces, up to the opening one. -/
def opened (name : Text) : Text := "enum ".toList ++ (name ++ [' ', '{'])

/-- The declaration line of an enum with some texts between the braces. -/
def onOneLine (name : Text) (ps : List Text) : Text := opened name ++ ([','].intercalate ps ++ ['}'])

/-- Some texts on lines of their own, with a comma behind each but the last. -/
def commaLines : List Text → List Text
  | [] => []
  | [p] => [p]
  | p :: q :: ps => (p ++ [',']) :: commaLines (q :: ps)

/-- The lines of an enum with some texts on lines of their own. -/
def onLines (name : Text) (ps : List Text) : List Text := opened name :: (commaLines ps ++ [['}', ';']])

section Commas

variable {s p t name : Text} {ps : List Text}

/-- A line for a member without a comment is an enumerator, perhaps with a comma and white space behind it. -/
theorem MemberLine.exists_enumerator (h : MemberLine name s) (hs : ¬ ['/', '/'] <:+: s) :
    Enumerator name s ∨ ∃ t w, Enumerator name t ∧ Blanks w ∧ s = t ++ ',' :: w := by
  obtain @⟨t, k, w, c, ht, hk, hw, hc⟩ := h
  cases hc with
  | present _ =>
    refine absurd ?_ hs
    rw [← List.append_assoc, ← List.append_assoc]
    exact List.infix_append' _ _ _
  | absent =>
    cases hk with
    | absent =>
      obtain @⟨x, i, v, hx, hn, hi, hv⟩ := ht
      have hall : Enumerator name (x ++ (name ++ (i ++ (v ++ w)))) :=
        .mk hx hn hi (List.forall_mem_append.mpr ⟨hv, hw⟩)
      exact Or.inl (by simpa using hall)
    | present => exact Or.inr ⟨t, w, ht, hw, by simp⟩

/-- An enumerator is a line for its member, and so is one with a comma behind it. -/
theorem Enumerator.memberLine {k : Text} (h : Enumerator name t) (hk : CommaPart k) : MemberLine name (t ++ k) := by
  have hline : MemberLine name (t ++ (k ++ ([] ++ []))) := .mk h hk (by simp [Blanks]) .absent
  simpa using hline

/-- No pair of slashes comes about where a comma is put behind a text. -/
theorem infix_of_infix_comma (h : ['/', '/'] <:+: p ++ [',']) : ['/', '/'] <:+: p := by
  rcases List.infix_concat_iff.mp h with hsuffix | hinfix
  · rcases List.suffix_concat_iff.mp hsuffix with hnil | ⟨r, hr, -⟩
    · cases hnil
    · have hlast : some '/' = some ',' := by simpa using congrArg List.getLast? hr
      exact absurd hlast (by decide)
  · exact hinfix

/-- **A comma behind a text changes nothing about the member that the text declares.** -/
theorem memberName?_append_comma (hcomma : ',' ∉ p) (hslashes : ¬ ['/', '/'] <:+: p) :
    memberName? (p ++ [',']) = memberName? p := by
  refine Option.ext fun name => ?_
  rw [memberName?_eq_some_iff, memberName?_eq_some_iff]
  constructor
  · intro hline
    rcases hline.exists_enumerator (mt infix_of_infix_comma hslashes) with ht | ⟨t, w, ht, -, hparts⟩
    · exact absurd (List.mem_append_right p List.mem_cons_self) ht.notMem.1
    · -- neither the text nor the enumerator holds a comma, so they end at the same one
      obtain ⟨rfl, -⟩ := append_inj_of_head hcomma ht.notMem.1 rfl rfl hparts
      simpa using ht.memberLine .absent
  · intro hline
    rcases hline.exists_enumerator hslashes with hp | ⟨t, w, -, -, rfl⟩
    · exact hp.memberLine .present
    · exact absurd (List.mem_append_right t List.mem_cons_self) hcomma

/-- Texts on lines of their own declare the same members with commas behind them as without. -/
theorem filterMap_commaLines (h : ∀ p ∈ ps, Portable p) :
    (commaLines ps).filterMap memberName? = ps.filterMap memberName? := by
  fun_induction commaLines ps with
  | case1 => rfl
  | case2 p => rfl
  | case3 p q ps ih =>
    obtain ⟨hp, hps⟩ := List.forall_mem_cons.mp h
    rw [List.filterMap_cons, List.filterMap_cons, memberName?_append_comma hp.comma hp.slashes, ih hps]

/-- Put one behind the other, texts with commas are the texts between commas. -/
theorem flatten_commaLines (ps : List Text) : (commaLines ps).flatten = [','].intercalate ps := by
  fun_induction commaLines ps with
  | case1 => rfl
  | case2 p => simp
  | case3 p q ps ih => rw [List.flatten_cons, ih, List.intercalate_cons_cons]

/-- What stands in no text stands between none of them. -/
theorem notMem_intercalate_comma {c : Char} (hc : c ≠ ',') (h : ∀ p ∈ ps, c ∉ p) : c ∉ [','].intercalate ps := by
  rw [← flatten_commaLines]
  fun_induction commaLines ps with
  | case1 => exact List.not_mem_nil
  | case2 p => simpa using h
  | case3 p q ps ih =>
    obtain ⟨hp, hps⟩ := List.forall_mem_cons.mp h
    rw [List.flatten_cons, List.mem_append, List.mem_append, List.mem_singleton, not_or, not_or]
    exact ⟨⟨hp, hc⟩, ih hps⟩

end Commas

section Forms

variable {name line : Text} {searched : Option Text} {rest ps : List Text} {g l : Group}

/-- A group that starts with a declaration line is an enumeration with the members that its texts declare. -/
theorem DeclarationLine.exists_ofGroup (h : DeclarationLine name searched line) (hn : '\n' ∉ line)
    (hg : g.lines.map (·.text) = line :: rest) : ∃ e, Enumeration.ofGroup g = .ok e ∧ e.name = name ∧
      e.memberNames = ((searched.map (·.splitOn ',')).getD [] ++ rest).filterMap memberName? := by
  obtain ⟨rfl, rfl⟩ := List.cons.inj hg
  obtain ⟨d, hd, rfl, rfl⟩ := h.ofLine? hn
  obtain ⟨e, he, hname, -, hmembers⟩ := Enumeration.ofGroup_eq_ok hd
  refine ⟨e, he, hname, ?_⟩
  rw [hmembers, Declaration.pieces]
  cases d.body <;> rfl

/-- A line with braces is a declaration line, with what stands behind the opening one. -/
theorem EnumName.declarationLine {r : Text} (hname : EnumName name) (hr : Tail ('{' :: r) searched) :
    DeclarationLine name searched (opened name ++ r) := by
  have hhead : Head name ([] ++ ("enum".toList ++ ([] ++ ([' '] ++ (name ++ []))))) :=
    .mk (by decide) .absent (by decide) (by decide) hname .absent
  exact ⟨_, [' '], '{' :: r, hhead, by decide, hr, by simp [opened]⟩

/-- No line feed stands in front of the opening brace. -/
theorem notMem_opened (hname : EnumName name) : '\n' ∉ opened name := by
  have hblank : isWord '\n' = false := isWord_eq_false_of_isBlank (by decide)
  have hword : '\n' ∉ name := by
    intro h
    rw [hname.isWord _ h] at hblank
    cases hblank
  simp [opened, hword]

/-- Between the braces of one line some texts declare their members. -/
theorem exists_ofGroup_onOneLine (hname : EnumName name) (hne : ps ≠ []) (hps : ∀ p ∈ ps, Portable p)
    (hg : g.lines.map (·.text) = [onOneLine name ps]) :
    ∃ e, Enumeration.ofGroup g = .ok e ∧ e.name = name ∧ e.memberNames = ps.filterMap memberName? := by
  have hbrace : '}' ∉ [','].intercalate ps := notMem_intercalate_comma (by decide) fun p hp => (hps p hp).brace
  have hbreak : '\n' ∉ [','].intercalate ps :=
    notMem_intercalate_comma (by decide) fun p hp h => absurd ((hps p hp).terminator _ h) (by decide)
  have hline : DeclarationLine name (some ([','].intercalate ps)) (onOneLine name ps) :=
    hname.declarationLine (.closed hbrace (.mk (k := []) (w := []) .absent (by decide) .absent))
  obtain ⟨e, he, hename, hmembers⟩ :=
    hline.exists_ofGroup (by simp [onOneLine, notMem_opened hname, hbreak]) hg
  have hpieces : ([','].intercalate ps).splitOn ',' = ps :=
    List.splitOn_intercalate ',' (fun p hp => (hps p hp).comma) hne
  refine ⟨e, he, hename, ?_⟩
  rw [hmembers, Option.map_some, Option.getD_some, hpieces, List.append_nil]

/-- On lines of their own, between a line that opens a brace and one that closes it, they declare the same members. -/
theorem exists_ofGroup_onLines (hname : EnumName name) (hps : ∀ p ∈ ps, Portable p)
    (hg : g.lines.map (·.text) = onLines name ps) :
    ∃ e, Enumeration.ofGroup g = .ok e ∧ e.name = name ∧ e.memberNames = ps.filterMap memberName? := by
  have hline : DeclarationLine name (some []) (opened name) := by
    simpa using hname.declarationLine (r := []) (.unclosed List.not_mem_nil)
  obtain ⟨e, he, hename, hmembers⟩ := hline.exists_ofGroup (notMem_opened hname) hg
  have hblank : memberName? [] = none := memberName?_blanks (by decide)
  have hclosing : memberName? ['}', ';'] = none := memberName?_brace (w := []) (by decide) (Or.inr rfl)
  refine ⟨e, he, hename, ?_⟩
  rw [hmembers, Option.map_some, Option.getD_some, List.splitOn_nil, List.filterMap_append,
    List.filterMap_cons_none hblank, List.filterMap_nil, List.nil_append, List.filterMap_append,
    filterMap_commaLines hps, List.filterMap_cons_none hclosing, List.filterMap_nil, List.append_nil]

/-- **An enum has the same members on one line and on several**, whatever the texts for them hold but commas, closing
braces, pairs of slashes and line ends. -/
theorem ofGroup_onOneLine (hname : EnumName name) (hne : ps ≠ []) (hps : ∀ p ∈ ps, Portable p)
    (hg : g.lines.map (·.text) = [onOneLine name ps]) (hl : l.lines.map (·.text) = onLines name ps) :
    ∃ e e', Enumeration.ofGroup g = .ok e ∧ Enumeration.ofGroup l = .ok e' ∧ e.name = name ∧ e'.name = name ∧
      e.memberNames = (ps.filter DeclaresMember).map firstWord ∧ e'.memberNames = e.memberNames := by
  obtain ⟨e, he, hename, hmembers⟩ := exists_ofGroup_onOneLine hname hne hps hg
  obtain ⟨e', he', hename', hmembers'⟩ := exists_ofGroup_onLines hname hps hl
  exact ⟨e, e', he, he', hename, hename', hmembers.trans (filterMap_memberName?_eq ps), hmembers'.trans hmembers.symm⟩

end Forms

set_option maxRecDepth 4000 in
/-- Empty texts, texts of two words and initialisers without a literal are passed over in both forms. -/
theorem ofGroup_onOneLine_stray :
    (∀ p ∈ [" A".toList, [], "B C".toList, "D = ".toList, "F = 'u".toList, "G\t= 08 ".toList], Portable p) ∧
      ∃ e e', Enumeration.ofGroup ⟨⟨"enum class \x7b A,,B C,D = ,F = 'u,G\t= 08 \x7d".toList, 0⟩, []⟩ = .ok e ∧
        Enumeration.ofGroup ⟨⟨"enum class \x7b".toList, 0⟩, [⟨" A,".toList, 13⟩, ⟨",".toList, 17⟩, ⟨"B C,".toList, 19⟩,
          ⟨"D = ,".toList, 24⟩, ⟨"F = 'u,".toList, 30⟩, ⟨"G\t= 08 ".toList, 38⟩, ⟨"\x7d;".toList, 46⟩]⟩ = .ok e' ∧
        e.memberNames = ["A".toList, "G".toList] ∧ e'.memberNames = ["A".toList, "G".toList] := by
  have hps : ∀ p ∈ [" A".toList, [], "B C".toList, "D = ".toList, "F = 'u".toList, "G\t= 08 ".toList], Portable p := by
    decide
  obtain ⟨e, e', he, he', -, -, hmembers, hsame⟩ := ofGroup_onOneLine
    (g := ⟨⟨"enum class \x7b A,,B C,D = ,F = 'u,G\t= 08 \x7d".toList, 0⟩, []⟩)
    (l := ⟨⟨"enum class \x7b".toList, 0⟩, [⟨" A,".toList, 13⟩, ⟨",".toList, 17⟩, ⟨"B C,".toList, 19⟩,
      ⟨"D = ,".toList, 24⟩, ⟨"F = 'u,".toList, 30⟩, ⟨"G\t= 08 ".toList, 38⟩, ⟨"\x7d;".toList, 46⟩]⟩)
    (enumName_of_mem_qualifiers (q := "class".toList) (by decide)) (List.cons_ne_nil _ _) hps (by decide) (by decide)
  have hnames : e.memberNames = ["A".toList, "G".toList] := hmembers.trans (by decide)
  exact ⟨hps, e, e', he, he', hnames, hsame.trans hnames⟩

end EnumStrings
