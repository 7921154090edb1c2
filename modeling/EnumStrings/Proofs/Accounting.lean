import Mathlib
import EnumStrings.Diagnostic
import EnumStrings.Proofs.DeclarationShape

/-!
# Every group is accounted for

Groups are reported on in turn, members are looked up among those seen before them, and only errors are counted. What
comes of it can be said without any of this: a group is an enumeration or is due one error, and an enumeration is due a
warning for each member whose name occurs earlier in it, and one if it has no members (`Group.dueRemarks`). The loop
over the members finds the repeated ones (`repeats_eq_repeatedMembers`), as many as there are members beyond the
distinct names (`length_repeatedMembers_add`), and the reports are the ones that are due, so the numbers of errors and
warnings follow (`findings_account`).
-/

namespace EnumStrings

/-! ## What is due -/

/-- A member with its index, and the first of its name, if that is an earlier one. -/
def repeatAt? (ms : List Excerpt) (member : Excerpt × Nat) : Option (Excerpt × Excerpt) :=
  ((ms.take member.2).find? (·.text == member.1.text)).map (member.1, ·)

/-- The members whose names occur earlier in a list, in their order, each with the first member of its name. -/
def repeatedMembers (ms : List Excerpt) : List (Excerpt × Excerpt) := ms.zipIdx.filterMap (repeatAt? ms)

/-- What a report is about, without its words. -/
structure Remark where
  severity : Severity
  span : Span
  labels : List (Span × Color)
deriving DecidableEq, Repr

def Report.remark (r : Report) : Remark := ⟨r.severity, r.span, r.labels.map fun l => (l.span, l.color)⟩

/-- The enumeration that a group declares, if it declares one. -/
def Group.enumeration? (g : Group) : Option Enumeration := (Enumeration.ofGroup g).toOption

/-- A warning on an enumeration without members, and then one on each member whose name occurs earlier. -/
def Enumeration.dueRemarks (e : Enumeration) : List Remark :=
  (if e.members = [] then [⟨.warning, e.span, [(e.span, .yellow)]⟩] else []) ++
    (repeatedMembers e.members).map fun (again, first) =>
      ⟨.warning, again.span, [(again.span, .yellow), (first.span, .blue)]⟩

/-- An error on the first line of a group that declares no enum, or what is due to the enumeration that it declares. -/
def Group.dueRemarks (g : Group) : List Remark :=
  match g.enumeration? with
  | some e => e.dueRemarks
  | none => [⟨.error, g.declaration.span, [(g.declaration.span, .red)]⟩]

/-! ## Repeated members -/

section Repeats

variable {seen before ms : List Excerpt}

/-- Members are looked up among those of new names as they would be among all members before them. -/
def SeesAll (seen before : List Excerpt) : Prop :=
  ∀ name : Text, seen.find? (·.text == name) = before.find? (·.text == name)

theorem SeesAll.skip {m first : Excerpt} (h : SeesAll seen before) (hm : seen.find? (·.text == m.text) = some first) :
    SeesAll seen (before ++ [m]) := by
  intro name
  rw [List.find?_append, ← h name]
  cases hname : seen.find? (·.text == name) with
  | some n => rfl
  | none =>
    have hne : (m.text == name) = false := by
      rw [beq_eq_false_iff_ne]
      rintro rfl
      rw [hm] at hname
      cases hname
    simp [hne]

theorem SeesAll.add (h : SeesAll seen before) (m : Excerpt) : SeesAll (seen ++ [m]) (before ++ [m]) := by
  intro name
  rw [List.find?_append, List.find?_append, h name]

/-- The members that the loop still finds behind those that it has passed. -/
theorem repeats_eq_filterMap (h : SeesAll seen before) :
    Diagnostic.repeats seen ms = (ms.zipIdx before.length).filterMap (repeatAt? (before ++ ms)) := by
  induction ms generalizing seen before with
  | nil => rfl
  | cons m ms ih =>
    have hpassed : (before ++ m :: ms).take before.length = before := List.take_left
    have hlookup : repeatAt? (before ++ m :: ms) (m, before.length) =
        (seen.find? (·.text == m.text)).map (m, ·) := by rw [repeatAt?, hpassed, ← h m.text]
    have hsplit : before ++ m :: ms = before ++ [m] ++ ms := by simp
    have hlength : before.length + 1 = (before ++ [m]).length := by simp
    rw [Diagnostic.repeats, List.zipIdx_cons]
    cases hfind : seen.find? (·.text == m.text) with
    | some first =>
      rw [hfind, Option.map_some] at hlookup
      rw [List.filterMap_cons_some hlookup, hsplit, hlength, ← ih (h.skip hfind)]
    | none =>
      rw [hfind, Option.map_none] at hlookup
      rw [List.filterMap_cons_none hlookup, hsplit, hlength, ← ih (h.add m)]

/-- The loop over the members finds each repeated one with the first of its name. -/
theorem repeats_eq_repeatedMembers (ms : List Excerpt) : Diagnostic.repeats [] ms = repeatedMembers ms := by
  have hstart : SeesAll [] [] := fun _ => rfl
  exact repeats_eq_filterMap hstart

/-- Every member that is passed is repeated or brings a new name. -/
theorem length_repeats_add (hseen : (seen.map (·.text)).Nodup) :
    (Diagnostic.repeats seen ms).length + ((seen ++ ms).map (·.text)).toFinset.card = seen.length + ms.length := by
  induction ms generalizing seen with
  | nil =>
    have hcard := List.toFinset_card_of_nodup hseen
    rw [List.length_map] at hcard
    simp [Diagnostic.repeats, hcard]
  | cons m ms ih =>
    unfold Diagnostic.repeats
    cases hfind : seen.find? (·.text == m.text) with
    | some first =>
      have hmem : m.text ∈ (seen ++ ms).map (·.text) := by
        rw [List.map_append]
        refine List.mem_append_left _ (List.mem_map.mpr ⟨first, List.mem_of_find?_eq_some hfind, ?_⟩)
        simpa using List.find?_some hfind
      have hnames : ((seen ++ m :: ms).map (·.text)).toFinset = ((seen ++ ms).map (·.text)).toFinset := by
        ext name
        simp only [List.map_append, List.map_cons, List.mem_toFinset, List.mem_append, List.mem_cons] at hmem ⊢
        constructor
        · rintro (h | rfl | h)
          · exact Or.inl h
          · exact hmem
          · exact Or.inr h
        · rintro (h | h)
          · exact Or.inl h
          · exact Or.inr (Or.inr h)
      have hrest := ih hseen
      simp only [hnames, List.length_cons]
      omega
    | none =>
      have hnew : ((seen ++ [m]).map (·.text)).Nodup := by
        rw [List.map_append, List.map_singleton]
        refine List.Nodup.append hseen (List.nodup_singleton _) (List.disjoint_singleton.mpr ?_)
        intro hmem
        obtain ⟨n, hn, htext⟩ := List.mem_map.mp hmem
        have hno := List.find?_eq_none.mp hfind n hn
        simp [htext] at hno
      have hrest := ih hnew
      rw [List.append_assoc, List.singleton_append, List.length_append, List.length_singleton] at hrest
      simp only [List.length_cons]
      omega

/-- There are as many repeated members as members beyond the distinct names. -/
theorem length_repeatedMembers_add (ms : List Excerpt) :
    (repeatedMembers ms).length + (ms.map (·.text)).toFinset.card = ms.length := by
  have h := @length_repeats_add [] ms List.nodup_nil
  rwa [repeats_eq_repeatedMembers, List.nil_append, List.length_nil, Nat.zero_add] at h

/-- A member is repeated exactly if the names are not distinct. -/
theorem repeatedMembers_ne_nil_iff : repeatedMembers ms ≠ [] ↔ ¬ (ms.map (·.text)).Nodup := by
  have hlength := length_repeatedMembers_add ms
  have hnodup : (ms.map (·.text)).toFinset.card = ms.length ↔ (ms.map (·.text)).Nodup := by
    have h := Multiset.toFinset_card_eq_card_iff_nodup (m := (ms.map (·.text) : Multiset Text))
    rw [Multiset.coe_card, List.length_map, Multiset.coe_nodup] at h
    exact h
  rw [← hnodup, ← List.length_pos_iff]
  omega

end Repeats

/-! ## Groups -/

section Groups

variable {g : Group} {e : Enumeration}

theorem Group.enumeration?_eq_none_iff : g.enumeration? = none ↔ Declaration.ofLine? g.declaration.text = none := by
  unfold enumeration? Enumeration.ofGroup
  cases Declaration.ofLine? g.declaration.text with
  | none => simp [Except.toOption]
  | some d => simp [Except.toOption]

/-- What is told about an enumeration is what is due to it. -/
theorem Enumeration.map_remark_ofEnumeration (e : Enumeration) :
    (Diagnostic.ofEnumeration e).map (·.report.remark) = e.dueRemarks := by
  rw [Diagnostic.ofEnumeration, repeats_eq_repeatedMembers, dueRemarks, List.map_append, List.map_map]
  congr 1
  split
  · rfl
  · rfl

/-- What is told about a group is what is due to it. -/
theorem Group.map_remark_ofResult (g : Group) :
    (Diagnostic.ofResult (Enumeration.ofGroup g)).map (·.report.remark) = g.dueRemarks := by
  unfold dueRemarks enumeration? Enumeration.ofGroup
  cases Declaration.ofLine? g.declaration.text with
  | none => rfl
  | some d => exact Enumeration.map_remark_ofEnumeration _

/-- A group is told as skipped or as the enumeration that it declares. -/
theorem Group.event_ofResult (g : Group) :
    Event.ofResult (Enumeration.ofGroup g) =
      match g.enumeration? with
      | some e => .parsed e
      | none => .skipped (.notADeclaration g.declaration) := by
  unfold enumeration? Enumeration.ofGroup
  cases Declaration.ofLine? g.declaration.text with
  | none => rfl
  | some d => rfl

/-- There is nothing to tell about an enumeration with members of distinct names. -/
theorem Enumeration.dueRemarks_ne_nil_iff : e.dueRemarks ≠ [] ↔ e.members = [] ∨ ¬ e.memberNames.Nodup := by
  rw [memberNames, ← repeatedMembers_ne_nil_iff, dueRemarks, Ne, List.append_eq_nil_iff, not_and_or,
    List.map_eq_nil_iff]
  refine or_congr_left ?_
  split
  · rename_i h
    simp [h]
  · rename_i h
    simp [h]

theorem Group.dueRemarks_ne_nil_iff : g.dueRemarks ≠ [] ↔
    g.enumeration? = none ∨ ∃ e, g.enumeration? = some e ∧ (e.members = [] ∨ ¬ e.memberNames.Nodup) := by
  unfold dueRemarks
  cases g.enumeration? with
  | none => simp
  | some e => simp [Enumeration.dueRemarks_ne_nil_iff]

end Groups

/-! ## Numbers -/

section Numbers

variable {g : Group}

/-- How many members of an enumeration are beyond the distinct names. -/
def Enumeration.surplus (e : Enumeration) : Nat := e.members.length - e.memberNames.toFinset.card

/-- The number of warnings that are due to an enumeration. -/
theorem Enumeration.length_dueRemarks (e : Enumeration) :
    e.dueRemarks.length = (if e.members = [] then 1 else 0) + e.surplus := by
  have hlength := length_repeatedMembers_add e.members
  have hsurplus : e.surplus = (repeatedMembers e.members).length := by
    rw [surplus, memberNames]
    omega
  rw [dueRemarks, List.length_append, List.length_map, hsurplus]
  split
  · rfl
  · rfl

/-- The only error that a group can be due is for declaring no enum. -/
theorem Group.errorCount_ofResult (g : Group) :
    Diagnostic.errorCount (Diagnostic.ofResult (Enumeration.ofGroup g)) = if g.enumeration? = none then 1 else 0 := by
  unfold enumeration?
  cases Enumeration.ofGroup g with
  | error fault => rfl
  | ok e =>
    rw [if_neg (by simp [Except.toOption]), Diagnostic.ofResult]
    exact List.countP_eq_zero.mpr fun d hd => by simp [Diagnostic.severity_of_mem_ofEnumeration hd]

theorem Group.errorCount_flatMap (gs : List Group) :
    Diagnostic.errorCount (gs.flatMap fun g => Diagnostic.ofResult (Enumeration.ofGroup g)) =
      gs.countP (·.enumeration? = none) := by
  induction gs with
  | nil => rfl
  | cons g gs ih =>
    have hfirst := g.errorCount_ofResult
    rw [Diagnostic.errorCount] at ih hfirst ⊢
    rw [List.flatMap_cons, List.countP_append, hfirst, ih, List.countP_cons, Nat.add_comm]
    simp

/-- The number of reports that are due to groups: errors, warnings on enumerations without members, and warnings on
repeated members. -/
theorem Group.length_flatMap_dueRemarks (gs : List Group) :
    (gs.flatMap dueRemarks).length = gs.countP (·.enumeration? = none) +
      ((gs.filterMap enumeration?).countP (·.members = []) +
        ((gs.filterMap enumeration?).map Enumeration.surplus).sum) := by
  induction gs with
  | nil => rfl
  | cons g gs ih =>
    rw [List.flatMap_cons, List.length_append, ih, List.countP_cons, dueRemarks]
    cases hg : g.enumeration? with
    | none =>
      rw [List.filterMap_cons_none hg]
      simp only [List.length_singleton, decide_true, if_true]
      omega
    | some e =>
      rw [List.filterMap_cons_some hg, List.countP_cons, List.map_cons, List.sum_cons]
      simp only [e.length_dueRemarks, decide_eq_true_eq, reduceCtorEq, if_false]
      omega

end Numbers

/-! ## Whole sources -/

/-- The enumerations of a source are those that its groups declare. -/
theorem enumerations_ofSource (src : Text) :
    (Listing.ofSource src).enumerations = (groups src).filterMap Group.enumeration? := List.filterMap_map ..

/-- Every group of a source is an enumeration or declares none. -/
theorem length_enumerations_add (src : Text) :
    (Listing.ofSource src).enumerations.length + (groups src).countP (·.enumeration? = none) = (groups src).length := by
  have hsplit := List.length_eq_countP_add_countP (fun g : Group => g.enumeration?.isSome) (l := groups src)
  have hnone : (fun g : Group => decide (¬ g.enumeration?.isSome = true)) =
      fun g => decide (g.enumeration? = none) := by simp
  rw [enumerations_ofSource, List.length_filterMap_eq_countP, hsplit, hnone]

/-- The errors among the diagnostics of a source are for the groups that declare no enum. -/
theorem errorCount_ofSource (src : Text) :
    Diagnostic.errorCount (Listing.ofSource src).diagnostics = (groups src).countP (·.enumeration? = none) := by
  rw [← Group.errorCount_flatMap]
  exact congrArg Diagnostic.errorCount (List.flatMap_map ..)

/-- **Every group is accounted for**: it is due an error, or is an enumeration that is due a warning if it is empty and
one for each repeated member. -/
theorem findings_account (src : Text) (f : Findings) :
    (Listing.ofSource src).enumerations = (groups src).filterMap Group.enumeration? ∧
      (∀ g : Group, g.enumeration? = none ↔ Declaration.ofLine? g.declaration.text = none) ∧
      (∃ added, ((Listing.ofSource src).findings f).reports = f.reports ++ added ∧
        added.map Report.remark = (groups src).flatMap Group.dueRemarks) ∧
      ((Listing.ofSource src).findings f).errors = f.errors + (groups src).countP (·.enumeration? = none) ∧
      (Listing.ofSource src).enumerations.length + (groups src).countP (·.enumeration? = none) =
        (groups src).length ∧
      ((Listing.ofSource src).findings f).warnings = f.warnings +
        ((Listing.ofSource src).enumerations.countP (·.members = []) +
          ((Listing.ofSource src).enumerations.map Enumeration.surplus).sum) ∧
      ((Listing.ofSource src).findings f).errors ≤ ((Listing.ofSource src).findings f).reports.length ∧
      (((Listing.ofSource src).findings f).hasAny = true ↔ f.hasAny = true ∨ ∃ g ∈ groups src,
        g.enumeration? = none ∨ ∃ e, g.enumeration? = some e ∧ (e.members = [] ∨ ¬ e.memberNames.Nodup)) ∧
      (Listing.ofSource src).events = (groups src).map fun g =>
        match g.enumeration? with
        | some e => .parsed e
        | none => .skipped (.notADeclaration g.declaration) := by
  have hdiagnostics : (Listing.ofSource src).diagnostics =
      (groups src).flatMap fun g => Diagnostic.ofResult (Enumeration.ofGroup g) := List.flatMap_map ..
  have henumerations := enumerations_ofSource src
  have hreports := (Listing.ofSource src).reports_findings f
  have herrors := (Listing.ofSource src).errors_findings f
  have hremarks : ((Listing.ofSource src).diagnostics.map Diagnostic.report).map Report.remark =
      (groups src).flatMap Group.dueRemarks := by
    rw [hdiagnostics, List.map_map, List.map_flatMap]
    exact List.flatMap_congr fun g _ => g.map_remark_ofResult
  rw [errorCount_ofSource] at herrors
  have hlength := Group.length_flatMap_dueRemarks (groups src)
  rw [← hremarks, List.length_map, ← henumerations] at hlength
  refine ⟨henumerations, fun g => Group.enumeration?_eq_none_iff, ⟨_, hreports, hremarks⟩, herrors,
    length_enumerations_add src, ?_,
    ((Listing.ofSource src).findings f).errors_le, ?_, ?_⟩
  · have hbefore := f.errors_add_warnings
    have hafter := ((Listing.ofSource src).findings f).errors_add_warnings
    rw [hreports, List.length_append, hlength, herrors] at hafter
    omega
  · have hadded : (Listing.ofSource src).diagnostics.map Diagnostic.report ≠ [] ↔
        ∃ g ∈ groups src, g.dueRemarks ≠ [] := by
      rw [← List.map_eq_nil_iff.ne, hremarks, Ne, List.flatMap_eq_nil_iff]
      simp
    rw [Findings.hasAny_iff, Findings.hasAny_iff, hreports, Ne, List.append_eq_nil_iff, not_and_or, ← Ne, ← Ne,
      hadded]
    simp only [Group.dueRemarks_ne_nil_iff]
  · rw [Listing.events, Listing.ofSource, List.map_map]
    exact List.map_congr_left fun g _ => g.event_ofResult

end EnumStrings
