import EnumStrings.Proofs.CommonBeginning
import EnumStrings.Proofs.DeclarationShape

/-!
# Every cut is in range

A group could be without a first line, a text could be cut behind its end or inside a character, and the beginning
that names share could be shortened forever. Here each of these steps can fail: lines are gathered one by one
(`gather`), and make up a group only if there are any (`Group.ofRun?`); texts are cut at a byte only if it stands
between two characters (`sharedStart?`, `cutBack?`, `strings?`); and what names leave out is found in a run of the loop
that ends (`PrefixRun`), which there is not if one of several names is empty (`exists_prefixRun_iff`).

Nothing fails for what is read from a source, and what comes out are the groups and the conversions
(`cuts_in_range`).
-/

namespace EnumStrings

/-! ## Groups -/

/-- Hands on the lines that have been gathered, if there are any. -/
def handOn (run : List Excerpt) : List (List Excerpt) := if run.isEmpty then [] else [run]

/-- The runs of lines between blank ones, gathered line by line behind those that have been gathered before. -/
def gather (run : List Excerpt) : List Excerpt → List (List Excerpt)
  | [] => handOn run
  | l :: ls => if l.isBlank then handOn run ++ gather [] ls else gather (run ++ [l]) ls

/-- The group that lines make up, if there is a first one. -/
def Group.ofRun? : List Excerpt → Option Group
  | [] => none
  | l :: ls => some ⟨l, ls⟩

section Lists

variable {α β : Type}

/-- If every element has an image, the images make up a list. -/
theorem mapM_eq_some_map {f : α → Option β} {g : α → β} {xs : List α} (h : ∀ x ∈ xs, f x = some (g x)) :
    xs.mapM f = some (xs.map g) := by
  induction xs with
  | nil => rfl
  | cons x xs ih =>
    obtain ⟨hx, hxs⟩ := List.forall_mem_cons.mp h
    rw [List.mapM_cons, hx, ih hxs]
    rfl

end Lists

section Runs

variable {l : Excerpt} {run ls : List Excerpt}

/-- A run that has a line goes on up to the next blank one. -/
theorem gather_cons (l : Excerpt) (run ls : List Excerpt) : gather (l :: run) ls =
    (l :: run ++ ls.takeWhile (!·.isBlank)) :: gather [] (ls.dropWhile (!·.isBlank)) := by
  induction ls generalizing run with
  | nil => simp [gather, handOn]
  | cons m ls ih =>
    rw [gather]
    cases hm : m.isBlank with
    | true => simp [hm, gather, handOn]
    | false => simp [hm, ih]

/-- Gathered line by line, the runs are the groups. -/
theorem gather_nil (ls : List Excerpt) : gather [] ls = (Group.ofLines ls).map Group.lines := by
  fun_induction Group.ofLines ls with
  | case1 => rfl
  | case2 l ls h ih => rw [gather, if_pos h, ih]; rfl
  | case3 l ls h ih => rw [gather, if_neg h, List.nil_append, gather_cons, ih]; rfl

/-- Every run has a first line. -/
theorem mapM_ofRun?_gather (ls : List Excerpt) : (gather [] ls).mapM Group.ofRun? = some (Group.ofLines ls) := by
  have hlines : ∀ g ∈ Group.ofLines ls, (Group.ofRun? ∘ Group.lines) g = some (id g) := fun _ _ => rfl
  rw [gather_nil, List.mapM_map, mapM_eq_some_map hlines, List.map_id]

end Runs

/-! ## What is left out -/

/-- The longest common beginning of a text and others, if it can be cut off at every one of them. -/
def sharedStart? (first : Text) (others : List Text) : Option Text :=
  others.foldlM (fun p s => takeBytes? (sharedLength p s) p) first

/-- The byte at which the last underscore stands. -/
def lastUnderscore? : Text → Option Nat
  | [] => none
  | c :: s =>
    match lastUnderscore? s with
    | some n => some (c.utf8Size + n)
    | none => if c = '_' then some 0 else none

/-- The text cut off one byte behind the beginning of its last underscore, if it has one. -/
def cutBack? (s : Text) : Option Text :=
  match lastUnderscore? s with
  | some n => takeBytes? (n + 1) s
  | none => some s

/-- A run that finds what the names can leave out, where every cut is in range and the loop ends. -/
inductive PrefixRun (names : List Text) : Text → Prop
  | few : names.length < 2 → PrefixRun names []
  | several {first second l p q : Text} {others : List Text} {n : Nat} : names = first :: second :: others →
      sharedStart? first (second :: others) = some l → cutBack? l = some p → Shortened names n p q →
      PrefixRun names q

/-- What a run finds that the strings of the members leave out; where they are not to be stripped, nothing is run. -/
def OmittedRun (o : Options) (members : List Text) (q : Text) : Prop :=
  if o.stripPrefix then PrefixRun members q else q = []

/-- The members with their strings, if these can be cut off behind `omitted`. -/
def strings? (omitted : Text) (members : List Text) : Option (List (Text × Text)) :=
  members.mapM fun member => (dropBytes? (byteLength omitted) member).map (member, ·)

section Beginnings

variable {p q r s first : Text} {names others : List Text} {n : Nat}

theorem sharedStart?_eq (first : Text) (others : List Text) :
    sharedStart? first others = some (sharedStart first others) := by
  induction others generalizing first with
  | nil => rfl
  | cons s others ih =>
    rw [sharedStart?, List.foldlM_cons, takeBytes?_sharedLength]
    exact ih (commonStart first s)

theorem lastUnderscore?_eq_none (hs : '_' ∉ s) : lastUnderscore? s = none := by
  induction s with
  | nil => rfl
  | cons c s ih =>
    obtain ⟨hc, hs⟩ : '_' ≠ c ∧ '_' ∉ s := by simpa using hs
    rw [lastUnderscore?, ih hs]
    exact if_neg (Ne.symm hc)

theorem lastUnderscore?_append (s : Text) (hr : '_' ∉ r) : lastUnderscore? (s ++ '_' :: r) = some (byteLength s) := by
  induction s with
  | nil => rw [List.nil_append, lastUnderscore?, lastUnderscore?_eq_none hr]; rfl
  | cons c s ih => rw [List.cons_append, lastUnderscore?, ih, byteLength_cons]

/-- A text can be cut back, since an underscore has one byte. -/
theorem cutBack?_eq_some (h : CutBack s p) : cutBack? s = some p := by
  cases h with
  | whole hs => rw [cutBack?, lastUnderscore?_eq_none hs]
  | @behind s r hr =>
    have hlength : byteLength s + 1 = byteLength (s ++ ['_']) := byteLength_append s ['_'] |>.symm
    rw [cutBack?, lastUnderscore?_append s hr, List.append_cons]
    dsimp only
    rw [hlength, takeBytes?_append]

theorem cutBack?_eq (s : Text) : cutBack? s = some (throughLastUnderscore s) :=
  cutBack?_eq_some (cutBack_throughLastUnderscore s)

/-- The loop ends for names that are not empty only. -/
theorem Shortened.ne_nil (h : Shortened names n p q) : ∀ s ∈ names, s ≠ [] := by
  induction h with
  | done hlt =>
    rintro s hs rfl
    exact Nat.not_lt_zero _ (hlt [] hs)
  | round _ _ ih => exact ih

/-- A run finds what the names can leave out, and nothing else. -/
theorem PrefixRun.eq_sharedPrefix (h : PrefixRun names q) : q = sharedPrefix names := by
  cases h with
  | few hlength => exact (sharedPrefix_of_length_lt hlength).symm
  | @several first second l p _ others n hnames hstart hcut hshort =>
    subst hnames
    rw [sharedStart?_eq] at hstart
    obtain rfl := Option.some.inj hstart
    rw [cutBack?_eq] at hcut
    obtain rfl := Option.some.inj hcut
    exact hshort.eq_shortenBelow

/-- There is a run for names that are not empty. -/
theorem prefixRun_sharedPrefix (hne : ∀ s ∈ names, s ≠ []) : PrefixRun names (sharedPrefix names) := by
  match names, hne with
  | [], _ => exact .few (by decide)
  | [s], _ => exact .few Nat.one_lt_two
  | first :: second :: others, hne =>
    have htwo : 2 ≤ (first :: second :: others).length := Nat.le_add_left 2 _
    have hlongest := longestStart_sharedStart first (second :: others)
    have hcut := cutBack_throughLastUnderscore (sharedStart first (second :: others))
    have hrun : ∀ {n}, Shortened (first :: second :: others) n _ (sharedPrefix (first :: second :: others)) →
        PrefixRun (first :: second :: others) (sharedPrefix (first :: second :: others)) :=
      .several rfl (sharedStart?_eq _ _) (cutBack?_eq _)
    rcases sharedPrefix_cases htwo hne hlongest hcut with ⟨-, hshort, -⟩ | ⟨-, hshort, -⟩
    · exact hrun hshort
    · exact hrun hshort

/-- There is no run for several names if one of them is empty. -/
theorem exists_prefixRun_iff (htwo : 2 ≤ names.length) : (∃ q, PrefixRun names q) ↔ ∀ s ∈ names, s ≠ [] := by
  constructor
  · rintro ⟨q, hfew | ⟨-, -, -, hshort⟩⟩
    · omega
    · exact hshort.ne_nil
  · exact fun hne => ⟨_, prefixRun_sharedPrefix hne⟩

end Beginnings

section Members

variable {o : Options} {members : List Text} {q : Text}

theorem OmittedRun.eq_omitted (h : OmittedRun o members q) : q = o.omitted members := by
  unfold OmittedRun at h
  unfold Options.omitted
  split at h
  · rename_i hstrip
    rw [if_pos hstrip]
    exact h.eq_sharedPrefix
  · rename_i hstrip
    rw [if_neg hstrip]
    exact h

theorem omittedRun_omitted (o : Options) (hne : ∀ m ∈ members, m ≠ []) : OmittedRun o members (o.omitted members) := by
  unfold OmittedRun Options.omitted
  split
  · exact prefixRun_sharedPrefix hne
  · rfl

/-- What is left out ends between two characters of every member. -/
theorem strings?_omitted (o : Options) (members : List Text) : strings? (o.omitted members) members =
    some (members.map fun member => (member, member.drop (o.omitted members).length)) := by
  refine mapM_eq_some_map fun member hmember => ?_
  have hdrop := dropBytes?_append (o.omitted members) (member.drop (o.omitted members).length)
  rw [o.omitted_append_drop hmember] at hdrop
  rw [hdrop, Option.map_some]

end Members

/-- **Every cut is in range, and the loop ends**, since no member has an empty name. Among several names an empty one
would leave the loop without an end. -/
theorem cuts_in_range (src : Text) (o : Options) :
    (gather [] (lines src)).mapM Group.ofRun? = some (groups src) ∧
    (∀ e ∈ (Listing.ofSource src).enumerations,
      (∀ m ∈ e.memberNames, m ≠ []) ∧ (∃ q, OmittedRun o e.memberNames q) ∧
      (∀ q, OmittedRun o e.memberNames q → strings? q e.memberNames = some (Conversion.ofEnumeration o e).cases) ∧
      ∀ p ∈ (Conversion.ofEnumeration o e).cases, p.2 ≠ []) ∧
    ∀ names : List Text, 2 ≤ names.length → ((∃ q, PrefixRun names q) ↔ ∀ s ∈ names, s ≠ []) := by
  refine ⟨mapM_ofRun?_gather _, fun e he => ?_, fun names => exists_prefixRun_iff⟩
  have hne : ∀ m ∈ e.memberNames, m ≠ [] := fun m hm => ((Enumeration.named_of_mem he).2 m hm).1
  refine ⟨hne, ⟨_, omittedRun_omitted o hne⟩, fun q hq => ?_, fun p hp => ?_⟩
  · rw [hq.eq_omitted]
    exact strings?_omitted o _
  · obtain ⟨m, hm, rfl⟩ := List.mem_map.mp hp
    exact Options.drop_omitted_ne_nil hne hm

/-- The underscore of a member that stands in front of the other is kept, and the cuts fall behind a character of two
bytes. -/
theorem cuts_in_range_accented : ∃ e ∈ (Listing.ofSource "enum E \x7b É_, É_é \x7d;".toList).enumerations,
    OmittedRun { stripPrefix := true } e.memberNames "É".toList ∧
      strings? "É".toList e.memberNames = some [("É_".toList, "_".toList), ("É_é".toList, "_é".toList)] := by
  have he : (⟨"E".toList, [⟨"É_".toList, 9⟩, ⟨"É_é".toList, 14⟩], ⟨0, 22⟩⟩ : Enumeration) ∈
      (Listing.ofSource "enum E \x7b É_, É_é \x7d;".toList).enumerations := by decide +kernel
  have hrun : OmittedRun { stripPrefix := true } ["É_".toList, "É_é".toList] "É".toList :=
    .several rfl (by decide : _ = some "É_".toList) (by decide : _ = some "É_".toList)
      (.round ⟨"É_".toList, by decide, by decide⟩ (.done (by decide)))
  obtain ⟨-, hread, -⟩ := cuts_in_range "enum E \x7b É_, É_é \x7d;".toList { stripPrefix := true }
  obtain ⟨-, -, hstrings, -⟩ := hread _ he
  exact ⟨_, he, hrun, (hstrings _ hrun).trans (by decide)⟩

end EnumStrings
