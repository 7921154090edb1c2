import EnumStrings.Source
import EnumStrings.Text

/-!
# Names

Two names are made from those in a source: one from the name of an enum, for the functions that read it (`snakeCase`),
and one from the names of its members, what can be left out of them all (`sharedPrefix`).
-/

namespace EnumStrings

/-! ## Snake case

The name of an enum, in small letters with an underscore before each word, names the functions that parse it.
-/

/-- A letter within a name: a capital starts a new word. -/
def snakeLetter (c : Char) : Text := if isUpper c then '_' :: toLower c else toLower c

/-- The name in small letters, with an underscore before every capital but the first character: `LightType` becomes
`light_type`, and `AO` becomes `a_o`. -/
def snakeCase : Text → Text
  | [] => []
  | c :: s => toLower c ++ s.flatMap snakeLetter

/-! ## The beginning that names share

Members of one enum often begin alike, as in `VK_FORMAT_R8` and `VK_FORMAT_R16`. `sharedPrefix` is what can be left out
of all of them: their longest common beginning, cut after its last underscore if it has one, and then shortened as far
as it takes to leave something of every name. It stands in front of every name (`sharedPrefix_prefix_of_mem`).

How much two texts share is counted in bytes (`sharedLength`), and a text is cut at that byte, which always falls
between two characters (`takeBytes?_sharedLength`).
-/

/-- The byte at which two texts first differ, if one does not just go on where the other ends. -/
def firstDifference? : Text → Text → Option Nat
  | a :: s, b :: t => if a = b then (firstDifference? s t).map (a.utf8Size + ·) else some 0
  | _, _ => none

/-- The number of bytes that two texts share at their front: all bytes of the shorter one, unless they differ before. -/
def sharedLength (s t : Text) : Nat := (firstDifference? s t).getD (min (byteLength s) (byteLength t))

/-- The longest common beginning of two texts, cut off the first. -/
def commonStart (s t : Text) : Text := (takeBytes? (sharedLength s t) s).getD s

/-- The longest common beginning of a text and all texts of a list. -/
def sharedStart (first : Text) (others : List Text) : Text := others.foldl commonStart first

/-- The text up to its last underscore, or the whole text if it has none. -/
def throughLastUnderscore (s : Text) : Text :=
  if '_' ∈ s then (s.reverse.dropWhile (· != '_')).reverse else s

/-- The text without its last characters, as many as it takes to make it shorter than `limit` bytes. -/
def shortenBelow (limit : Nat) (s : Text) : Text := (go s.reverse).reverse
where
  /-- Drops characters at the front. -/
  go : Text → Text
    | [] => []
    | c :: r => if limit ≤ byteLength (c :: r) then go r else c :: r

/-- The number of bytes of the shortest of the texts. -/
def shortestLength (first : Text) (others : List Text) : Nat :=
  others.foldl (fun n s => min n (byteLength s)) (byteLength first)

/-- The beginning that can be left out of all the names; nothing can be left out of a single name. -/
def sharedPrefix : List Text → Text
  | first :: second :: others =>
    shortenBelow (shortestLength first (second :: others))
      (throughLastUnderscore (sharedStart first (second :: others)))
  | _ => []

theorem sharedLength_nil_left (t : Text) : sharedLength [] t = 0 := by
  simp [sharedLength, firstDifference?]

theorem sharedLength_nil_right (s : Text) : sharedLength s [] = 0 := by
  cases s <;> simp [sharedLength, firstDifference?]

theorem sharedLength_cons_self (a : Char) (s t : Text) :
    sharedLength (a :: s) (a :: t) = a.utf8Size + sharedLength s t := by
  rw [sharedLength, sharedLength, firstDifference?, if_pos rfl]
  cases firstDifference? s t with
  | none => simp [Nat.add_min_add_left]
  | some n => rfl

theorem sharedLength_cons_of_ne {a b : Char} (h : a ≠ b) (s t : Text) : sharedLength (a :: s) (b :: t) = 0 := by
  rw [sharedLength, firstDifference?, if_neg h]
  rfl

@[simp] theorem commonStart_nil_left (t : Text) : commonStart [] t = [] := by
  rw [commonStart, sharedLength_nil_left, takeBytes?_zero, Option.getD_some]

@[simp] theorem commonStart_nil_right (s : Text) : commonStart s [] = [] := by
  rw [commonStart, sharedLength_nil_right, takeBytes?_zero, Option.getD_some]

@[simp] theorem commonStart_cons_self (a : Char) (s t : Text) :
    commonStart (a :: s) (a :: t) = a :: commonStart s t := by
  rw [commonStart, commonStart, sharedLength_cons_self, takeBytes?_cons]
  cases takeBytes? (sharedLength s t) s <;> rfl

theorem commonStart_cons_of_ne {a b : Char} (h : a ≠ b) (s t : Text) : commonStart (a :: s) (b :: t) = [] := by
  rw [commonStart, sharedLength_cons_of_ne h, takeBytes?_zero, Option.getD_some]

/-- The byte up to which two texts are alike falls between two characters. -/
theorem takeBytes?_sharedLength (s t : Text) : takeBytes? (sharedLength s t) s = some (commonStart s t) := by
  induction s generalizing t with
  | nil => rw [sharedLength_nil_left, takeBytes?_zero, commonStart_nil_left]
  | cons a s ih =>
    cases t with
    | nil => rw [sharedLength_nil_right, takeBytes?_zero, commonStart_nil_right]
    | cons b t =>
      by_cases h : a = b
      · subst h
        rw [sharedLength_cons_self, takeBytes?_cons, ih, commonStart_cons_self, Option.map_some]
      · rw [sharedLength_cons_of_ne h, takeBytes?_zero, commonStart_cons_of_ne h]

/-- A text stands in front of two others exactly if it stands in front of their longest common beginning. -/
theorem prefix_commonStart_iff {k s t : Text} : k <+: commonStart s t ↔ k <+: s ∧ k <+: t := by
  induction s generalizing k t with
  | nil =>
    rw [commonStart_nil_left]
    exact ⟨fun h => ⟨h, h.trans List.nil_prefix⟩, fun h => h.1⟩
  | cons a s ih =>
    cases t with
    | nil =>
      rw [commonStart_nil_right]
      exact ⟨fun h => ⟨h.trans List.nil_prefix, h⟩, fun h => h.2⟩
    | cons b t =>
      cases k with
      | nil => simp
      | cons c k =>
        by_cases h : a = b
        · subst h
          rw [commonStart_cons_self, List.cons_prefix_cons, List.cons_prefix_cons, List.cons_prefix_cons, ih]
          exact ⟨fun ⟨hc, hs, ht⟩ => ⟨⟨hc, hs⟩, hc, ht⟩, fun ⟨⟨hc, hs⟩, _, ht⟩ => ⟨hc, hs, ht⟩⟩
        · rw [commonStart_cons_of_ne h, List.prefix_nil, List.cons_prefix_cons, List.cons_prefix_cons]
          exact iff_of_false (List.cons_ne_nil c k) fun ⟨⟨ha, _⟩, hb, _⟩ => h (ha.symm.trans hb)

theorem commonStart_prefix_left (s t : Text) : commonStart s t <+: s :=
  (prefix_commonStart_iff.mp (List.prefix_refl _)).1

theorem commonStart_prefix_right (s t : Text) : commonStart s t <+: t :=
  (prefix_commonStart_iff.mp (List.prefix_refl _)).2

theorem sharedStart_prefix_first (first : Text) (others : List Text) : sharedStart first others <+: first := by
  induction others generalizing first with
  | nil => exact List.prefix_refl _
  | cons s others ih => exact (ih _).trans (commonStart_prefix_left first s)

theorem sharedStart_prefix_of_mem {s first : Text} {others : List Text} (h : s ∈ others) :
    sharedStart first others <+: s := by
  induction others generalizing first with
  | nil => cases h
  | cons t others ih =>
    rcases List.mem_cons.mp h with rfl | h
    · exact (sharedStart_prefix_first _ others).trans (commonStart_prefix_right first _)
    · exact ih h

theorem throughLastUnderscore_isPrefix (s : Text) : throughLastUnderscore s <+: s := by
  unfold throughLastUnderscore
  split
  · rw [← List.reverse_suffix, List.reverse_reverse]
    exact List.dropWhile_suffix _
  · exact List.prefix_refl s

theorem shortenBelow.go_suffix (limit : Nat) (s : Text) : shortenBelow.go limit s <:+ s := by
  fun_induction shortenBelow.go limit s with
  | case1 => exact List.suffix_refl _
  | case2 c r h ih => exact ih.trans (List.suffix_cons c r)
  | case3 c r h => exact List.suffix_refl _

theorem shortenBelow_isPrefix (limit : Nat) (s : Text) : shortenBelow limit s <+: s := by
  rw [← List.reverse_suffix, shortenBelow, List.reverse_reverse]
  exact shortenBelow.go_suffix limit s.reverse

/-- What can be left out of all names stands in front of each. -/
theorem sharedPrefix_prefix_of_mem {s : Text} {names : List Text} (h : s ∈ names) : sharedPrefix names <+: s := by
  match names, h with
  | first :: second :: others, h =>
    refine (shortenBelow_isPrefix _ _).trans ((throughLastUnderscore_isPrefix _).trans ?_)
    rcases List.mem_cons.mp h with rfl | h
    · exact sharedStart_prefix_first _ _
    · exact sharedStart_prefix_of_mem h
  | [_], _ => exact List.nil_prefix

end EnumStrings
