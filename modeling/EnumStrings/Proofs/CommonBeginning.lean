import Mathlib.Data.List.Basic
import EnumStrings.Conversion
import EnumStrings.Proofs.Grammar

/-!
# What names have in common

The running beginning is the longest text in front of all names seen so far (`prefix_sharedStart_iff`), so in the end it
is the longest one in front of all (`LongestStart`), whatever their order and however often they come. It is cut back
behind its last underscore (`CutBack`) and shortened until every name has more bytes (`Shortened`). One round is enough
for that: where some name has no more bytes, it is the text itself, and one character less leaves something of every
name (`shortened_cases`). So what can be left out of the names is known exactly (`sharedPrefix_exact`).

A text that has been cut back ends with its last underscore. The round that shortens it takes this underscore away
(`sharedPrefix_ends`), and where another one stands further in front, the beginning then ends with a word and not with
an underscore (`sharedPrefix_boundary`).

What can be left out of some names is shorter than each of them if none is empty (`byteLength_sharedPrefix_lt`), so
stripping leaves something of every name (`Options.drop_omitted_ne_nil`).
-/

namespace EnumStrings

/-! ## What is left of a name -/

section Lengths

variable {s first : Text} {names others : List Text} {limit m n : Nat}

theorem lt_foldl_min_iff :
    m < others.foldl (fun n s => min n (byteLength s)) n ↔ m < n ∧ ∀ s ∈ others, m < byteLength s := by
  induction others generalizing n with
  | nil => simp
  | cons t others ih => rw [List.foldl_cons, ih, Nat.lt_min, List.forall_mem_cons, and_assoc]

/-- A text is shorter than the shortest of some names exactly if it is shorter than each. -/
theorem lt_shortestLength_iff :
    m < shortestLength first others ↔ ∀ s ∈ first :: others, m < byteLength s := by
  rw [shortestLength, lt_foldl_min_iff, List.forall_mem_cons]

theorem shortestLength_le (hs : s ∈ first :: others) : shortestLength first others ≤ byteLength s :=
  Nat.le_of_not_lt fun h => Nat.lt_irrefl _ (lt_shortestLength_iff.mp h s hs)

/-- The shortest of some names that are not empty has at least one byte. -/
theorem shortestLength_pos (h : ∀ s ∈ first :: others, s ≠ []) : 0 < shortestLength first others :=
  lt_shortestLength_iff.mpr fun s hs => Nat.pos_of_ne_zero fun hzero => h s hs (byteLength_eq_zero_iff.mp hzero)

theorem byteLength_reverse (s : Text) : byteLength s.reverse = byteLength s := by
  induction s with
  | nil => rfl
  | cons c s ih => simp [ih, Nat.add_comm]

theorem shortenBelow.byteLength_go_lt (hl : 0 < limit) (s : Text) : byteLength (go limit s) < limit := by
  fun_induction go limit s with
  | case1 => exact hl
  | case2 c r _ ih => exact ih
  | case3 c r h => omega

/-- A text that has been shortened below a limit is below it. -/
theorem byteLength_shortenBelow_lt (hl : 0 < limit) (s : Text) : byteLength (shortenBelow limit s) < limit := by
  rw [shortenBelow, byteLength_reverse]
  exact shortenBelow.byteLength_go_lt hl s.reverse

/-- What can be left out of all names is shorter than each of them, if none is empty. -/
theorem byteLength_sharedPrefix_lt (h : ∀ s ∈ names, s ≠ []) (hs : s ∈ names) :
    byteLength (sharedPrefix names) < byteLength s := by
  have hpos : byteLength s ≠ 0 := fun hzero => h s hs (byteLength_eq_zero_iff.mp hzero)
  match names, h, hs with
  | first :: second :: others, h, hs =>
    have hlt := byteLength_shortenBelow_lt (shortestLength_pos h)
      (throughLastUnderscore (sharedStart first (second :: others)))
    have hle := shortestLength_le hs
    rw [sharedPrefix]
    omega
  | [_], _, _ =>
    show byteLength [] < byteLength s
    rw [byteLength_nil]
    omega

end Lengths

section Members

variable {o : Options} {member : Text} {members : List Text}

/-- Something is left of every member that is not empty. -/
theorem Options.drop_omitted_ne_nil (h : ∀ m ∈ members, m ≠ []) (hm : member ∈ members) :
    member.drop (o.omitted members).length ≠ [] := by
  have hlt : byteLength (o.omitted members) < byteLength member := by
    unfold omitted
    split
    · exact byteLength_sharedPrefix_lt h hm
    · have hpos : byteLength member ≠ 0 := fun hzero => h member hm (byteLength_eq_zero_iff.mp hzero)
      rw [byteLength_nil]
      omega
  intro hnil
  have happend := o.omitted_append_drop hm
  rw [hnil, List.append_nil] at happend
  rw [happend] at hlt
  omega

end Members

/-- The longest text that stands in front of all the names. -/
structure LongestStart (names : List Text) (l : Text) : Prop where
  common : ∀ s ∈ names, l <+: s
  longest : ∀ k, (∀ s ∈ names, k <+: s) → k.length ≤ l.length

/-- A text is cut back just behind its last underscore, and stays whole if it has none. -/
inductive CutBack : Text → Text → Prop
  | whole {s : Text} : '_' ∉ s → CutBack s s
  | behind {s r : Text} : '_' ∉ r → CutBack (s ++ '_' :: r) (s ++ ['_'])

/-- In `n` rounds `p` is shortened to `q`: each round drops a character at the end, and another one follows as long as
some name has no more bytes. -/
inductive Shortened (names : List Text) : Nat → Text → Text → Prop
  | done {p : Text} : (∀ s ∈ names, byteLength p < byteLength s) → Shortened names 0 p p
  | round {n : Nat} {p q : Text} : (∃ s ∈ names, byteLength s ≤ byteLength p) → Shortened names n p.dropLast q →
      Shortened names (n + 1) p q

/-! ## The longest common beginning -/

section Longest

variable {k l p s first : Text} {names others : List Text}

/-- A text stands in front of all names exactly if it stands in front of the beginning that they share. -/
theorem prefix_sharedStart_iff : k <+: sharedStart first others ↔ ∀ s ∈ first :: others, k <+: s := by
  -- on the names still to come, for any running beginning: it takes the place of the names seen so far
  induction others generalizing first with
  | nil => simp [sharedStart]
  | cons t others ih =>
    have hstep : sharedStart first (t :: others) = sharedStart (commonStart first t) others := rfl
    rw [hstep, ih, List.forall_mem_cons, List.forall_mem_cons, List.forall_mem_cons, prefix_commonStart_iff, and_assoc]

theorem longestStart_sharedStart (first : Text) (others : List Text) :
    LongestStart (first :: others) (sharedStart first others) where
  common := prefix_sharedStart_iff.mp (List.prefix_refl _)
  longest _ h := (prefix_sharedStart_iff.mpr h).length_le

/-- There is only one longest text in front of all names. -/
theorem LongestStart.eq_sharedStart (h : LongestStart (first :: others) l) : l = sharedStart first others := by
  have hfront : l <+: sharedStart first others := prefix_sharedStart_iff.mpr h.common
  have hle := h.longest _ (longestStart_sharedStart first others).common
  exact hfront.eq_of_length_le hle

/-- A name that stands in front of all the others is their longest common beginning. -/
theorem longestStart_of_mem (hs : s ∈ names) (hall : ∀ t ∈ names, s <+: t) : LongestStart names s where
  common := hall
  longest _ h := (h s hs).length_le

/-- What is cut back ends with its last underscore. -/
theorem CutBack.eq_throughLastUnderscore (h : CutBack s p) : p = throughLastUnderscore s := by
  cases h with
  | whole hs => rw [throughLastUnderscore, if_neg hs]
  | @behind s r hr =>
    have hmem : '_' ∈ s ++ '_' :: r := List.mem_append_right s List.mem_cons_self
    have hreverse : (s ++ '_' :: r).reverse = r.reverse ++ '_' :: s.reverse := by simp
    have hdrop := (span_append_of_head (mt List.mem_reverse.mp hr) (rfl : ('_' :: s.reverse).head? = some '_')).2
    rw [throughLastUnderscore, if_pos hmem, hreverse, hdrop, List.reverse_cons, List.reverse_reverse]

theorem cutBack_throughLastUnderscore (s : Text) : CutBack s (throughLastUnderscore s) := by
  by_cases h : '_' ∈ s
  · obtain ⟨r, t, hparts, hr⟩ := List.eq_append_cons_of_mem (List.mem_reverse.mpr h)
    have hs : s = t.reverse ++ '_' :: r.reverse := by
      rw [← s.reverse_reverse, hparts]
      simp
    have hcut : CutBack s (t.reverse ++ ['_']) := by
      rw [hs]
      exact .behind (mt List.mem_reverse.mp hr)
    exact hcut.eq_throughLastUnderscore ▸ hcut
  · rw [throughLastUnderscore, if_neg h]
    exact .whole h

theorem CutBack.isPrefix (h : CutBack s p) : p <+: s :=
  h.eq_throughLastUnderscore ▸ throughLastUnderscore_isPrefix s

/-- What has been cut back has no underscore, or ends with one. -/
theorem CutBack.ends (h : CutBack s p) : '_' ∉ p ∨ ∃ q, p = q ++ ['_'] := by
  cases h with
  | whole hs => exact Or.inl hs
  | behind _ => exact Or.inr ⟨_, rfl⟩

end Longest

/-! ## Shortening -/

section Shortening

variable {p q first : Text} {names others : List Text} {n limit : Nat}

theorem shortenBelow_of_lt (h : byteLength p < limit) : shortenBelow limit p = p := by
  rcases List.eq_nil_or_concat' p with rfl | ⟨r, c, rfl⟩
  · rfl
  · have hnot : ¬ limit ≤ byteLength (c :: r.reverse) := by
      rw [← List.reverse_concat, byteLength_reverse]
      omega
    rw [shortenBelow, List.reverse_concat, shortenBelow.go, if_neg hnot, List.reverse_cons, List.reverse_reverse]

theorem shortenBelow_of_le (h : limit ≤ byteLength p) : shortenBelow limit p = shortenBelow limit p.dropLast := by
  rcases List.eq_nil_or_concat' p with rfl | ⟨r, c, rfl⟩
  · rfl
  · have hle : limit ≤ byteLength (c :: r.reverse) := by
      rw [← List.reverse_concat, byteLength_reverse]
      exact h
    rw [shortenBelow, List.reverse_concat, shortenBelow.go, if_pos hle, List.dropLast_concat, shortenBelow]

/-- Round by round, a text is shortened to what is below the length of the shortest name. -/
theorem Shortened.eq_shortenBelow (h : Shortened (first :: others) n p q) :
    q = shortenBelow (shortestLength first others) p := by
  induction h with
  | done hlt => rw [shortenBelow_of_lt (lt_shortestLength_iff.mpr hlt)]
  | @round n p q hle _ ih =>
    have hlimit : shortestLength first others ≤ byteLength p := by
      obtain ⟨s, hs, hle⟩ := hle
      exact Nat.le_trans (shortestLength_le hs) hle
    rw [shortenBelow_of_le hlimit]
    exact ih

/-- A text in front of a name that has no more bytes is the name. -/
theorem eq_of_prefix_of_byteLength_le {s : Text} (hp : p <+: s) (hle : byteLength s ≤ byteLength p) : p = s := by
  obtain ⟨t, rfl⟩ := hp
  rw [byteLength_append] at hle
  have hnil : t = [] := byteLength_eq_zero_iff.mp (by omega)
  rw [hnil, List.append_nil]

theorem byteLength_dropLast_lt (hp : p ≠ []) : byteLength p.dropLast < byteLength p := by
  rcases List.eq_nil_or_concat' p with rfl | ⟨r, c, rfl⟩
  · exact absurd rfl hp
  · have hpos := c.utf8Size_pos
    rw [List.dropLast_concat, byteLength_append, byteLength_cons]
    omega

/-- A text in front of all names is short enough, or it is a name and one round makes it so. -/
theorem shortened_cases (hp : ∀ s ∈ names, p <+: s) (hne : ∀ s ∈ names, s ≠ []) :
    (∀ s ∈ names, byteLength p < byteLength s) ∧ Shortened names 0 p p ∨
      p ∈ names ∧ Shortened names 1 p p.dropLast := by
  by_cases hshort : ∀ s ∈ names, byteLength p < byteLength s
  · exact Or.inl ⟨hshort, .done hshort⟩
  · obtain ⟨s, hs, hle⟩ : ∃ s ∈ names, byteLength s ≤ byteLength p := by simpa using hshort
    -- a name with no more bytes is the text itself, so all other names have as many bytes or more
    obtain rfl := eq_of_prefix_of_byteLength_le (hp s hs) hle
    refine Or.inr ⟨hs, .round ⟨p, hs, hle⟩ (.done fun t ht => ?_)⟩
    obtain ⟨r, rfl⟩ := hp t ht
    have hlt := byteLength_dropLast_lt (hne p hs)
    rw [byteLength_append]
    omega

end Shortening

/-! ## What can be left out -/

section Names

variable {l p s : Text} {names names' few : List Text}

/-- Nothing is left out of a single name. -/
theorem sharedPrefix_of_length_lt (h : few.length < 2) : sharedPrefix few = [] := by
  match few, h with
  | [], _ => rfl
  | [_], _ => rfl

/-- What is left out of several names is their longest common beginning, cut back and shortened. -/
theorem sharedPrefix_cases (htwo : 2 ≤ names.length) (hne : ∀ s ∈ names, s ≠ []) (hl : LongestStart names l)
    (hp : CutBack l p) :
    (∀ s ∈ names, byteLength p < byteLength s) ∧ Shortened names 0 p (sharedPrefix names) ∧ sharedPrefix names = p ∨
      p ∈ names ∧ Shortened names 1 p (sharedPrefix names) ∧ sharedPrefix names = p.dropLast := by
  match names, htwo with
  | first :: second :: others, _ =>
    have hresult : ∀ {n q}, Shortened (first :: second :: others) n p q →
        sharedPrefix (first :: second :: others) = q := by
      intro n q h
      rw [h.eq_shortenBelow, hp.eq_throughLastUnderscore, hl.eq_sharedStart, sharedPrefix]
    have hall : ∀ s ∈ first :: second :: others, p <+: s := fun s hs => hp.isPrefix.trans (hl.common s hs)
    rcases shortened_cases hall hne with ⟨hshort, h⟩ | ⟨hmem, h⟩
    · exact Or.inl ⟨hshort, (hresult h).symm ▸ h, hresult h⟩
    · exact Or.inr ⟨hmem, (hresult h).symm ▸ h, hresult h⟩

/-- Names have a longest common beginning, which can be cut back. -/
theorem exists_cutBack (htwo : 2 ≤ names.length) : ∃ l p, LongestStart names l ∧ CutBack l p := by
  match names, htwo with
  | first :: others, _ => exact ⟨_, _, longestStart_sharedStart first others, cutBack_throughLastUnderscore _⟩

/-- The longest common beginning of some names does not depend on their order, nor on how often each of them comes. -/
theorem LongestStart.congr (hl : LongestStart names l) (h : ∀ s, s ∈ names' ↔ s ∈ names) : LongestStart names' l where
  common s hs := hl.common s ((h s).mp hs)
  longest k hk := hl.longest k fun s hs => hk s ((h s).mpr hs)

/-- Neither does the length of the shortest name. -/
theorem shortestLength_congr {first first' : Text} {others others' : List Text}
    (h : ∀ s, s ∈ first' :: others' ↔ s ∈ first :: others) :
    shortestLength first' others' = shortestLength first others := by
  have hlt : ∀ n, n < shortestLength first' others' ↔ n < shortestLength first others := by
    intro n
    rw [lt_shortestLength_iff, lt_shortestLength_iff]
    exact forall_congr' fun s => by rw [h s]
  have hleft := hlt (shortestLength first others)
  have hright := hlt (shortestLength first' others')
  omega

/-- Neither the order of the names matters nor how often each of them comes. -/
theorem sharedPrefix_congr (htwo : 2 ≤ names.length) (htwo' : 2 ≤ names'.length) (h : ∀ s, s ∈ names' ↔ s ∈ names) :
    sharedPrefix names' = sharedPrefix names := by
  match names, names', htwo, htwo' with
  | first :: second :: others, first' :: second' :: others', _, _ =>
    have hstart := ((longestStart_sharedStart first (second :: others)).congr h).eq_sharedStart
    rw [sharedPrefix, sharedPrefix, hstart, shortestLength_congr h]

/-- What is left out ends between two characters of every name. -/
theorem takeBytes?_sharedPrefix (hs : s ∈ names) :
    takeBytes? (byteLength (sharedPrefix names)) s = some (sharedPrefix names) := by
  obtain ⟨t, ht⟩ := sharedPrefix_prefix_of_mem hs
  conv => lhs; rw [← ht]
  exact takeBytes?_append _ _

/-- What is left out is no name. -/
theorem sharedPrefix_ne (hne : ∀ s ∈ names, s ≠ []) (hs : s ∈ names) : sharedPrefix names ≠ s := by
  intro h
  have hlt := byteLength_sharedPrefix_lt hne hs
  rw [h] at hlt
  exact Nat.lt_irrefl _ hlt

/-- What is left out has no underscore or ends with one, or it is a name in front of all without its last underscore. -/
theorem sharedPrefix_ends (htwo : 2 ≤ names.length) (hne : ∀ s ∈ names, s ≠ []) :
    '_' ∉ sharedPrefix names ∨ (sharedPrefix names).getLast? = some '_' ∨
      sharedPrefix names ++ ['_'] ∈ names ∧ ∀ s ∈ names, sharedPrefix names ++ ['_'] <+: s := by
  obtain ⟨l, p, hl, hp⟩ := exists_cutBack htwo
  rcases sharedPrefix_cases htwo hne hl hp with ⟨-, -, hresult⟩ | ⟨hmem, -, hresult⟩
  · rcases hp.ends with hnone | ⟨q, rfl⟩
    · exact Or.inl (hresult ▸ hnone)
    · exact Or.inr (Or.inl (by rw [hresult, List.getLast?_concat]))
  · rcases hp.ends with hnone | ⟨q, rfl⟩
    · exact Or.inl fun h => hnone (List.dropLast_subset p (hresult ▸ h))
    · rw [List.dropLast_concat] at hresult
      exact Or.inr (Or.inr (hresult ▸ ⟨hmem, fun s hs => hp.isPrefix.trans (hl.common s hs)⟩))

/-- A name in front of all that ends with an underscore is left out but for this underscore. -/
theorem sharedPrefix_eq_of_concat_mem (htwo : 2 ≤ names.length) (hne : ∀ s ∈ names, s ≠ []) (hmem : p ++ ['_'] ∈ names)
    (hall : ∀ s ∈ names, p ++ ['_'] <+: s) : sharedPrefix names = p := by
  have hcut : CutBack (p ++ ['_']) (p ++ ['_']) := .behind (r := []) List.not_mem_nil
  rcases sharedPrefix_cases htwo hne (longestStart_of_mem hmem hall) hcut with ⟨hshort, -, -⟩ | ⟨-, -, hresult⟩
  · exact absurd (hshort _ hmem) (Nat.lt_irrefl _)
  · rw [hresult, List.dropLast_concat]

/-- **What can be left out of several names**: their longest common beginning, cut back behind its last underscore, and
shortened by one character if a name has no more bytes. -/
theorem sharedPrefix_exact (htwo : 2 ≤ names.length) (hne : ∀ s ∈ names, s ≠ []) :
    ((∃ l p, LongestStart names l ∧ CutBack l p) ∧ ∀ l p, LongestStart names l → CutBack l p →
      (∃ n ≤ 1, Shortened names n p (sharedPrefix names)) ∧
      sharedPrefix names = if ∀ s ∈ names, byteLength p < byteLength s then p else p.dropLast) ∧
    (∀ s ∈ names, sharedPrefix names <+: s ∧ sharedPrefix names ≠ s ∧
      takeBytes? (byteLength (sharedPrefix names)) s = some (sharedPrefix names)) ∧
    (∀ names', 2 ≤ names'.length → (∀ s, s ∈ names' ↔ s ∈ names) → sharedPrefix names' = sharedPrefix names) ∧
    ∀ few : List Text, few.length < 2 → sharedPrefix few = [] := by
  refine ⟨⟨exists_cutBack htwo, fun l p hl hp => ?_⟩, fun s hs => ?_, ?_, fun few => sharedPrefix_of_length_lt⟩
  · rcases sharedPrefix_cases htwo hne hl hp with ⟨hshort, hrounds, hresult⟩ | ⟨hmem, hrounds, hresult⟩
    · exact ⟨⟨0, Nat.zero_le 1, hrounds⟩, by rw [if_pos hshort, hresult]⟩
    · have hnot : ¬ ∀ s ∈ names, byteLength p < byteLength s := fun h => Nat.lt_irrefl _ (h p hmem)
      exact ⟨⟨1, Nat.le_refl 1, hrounds⟩, by rw [if_neg hnot, hresult]⟩
  · exact ⟨sharedPrefix_prefix_of_mem hs, sharedPrefix_ne hne hs, takeBytes?_sharedPrefix hs⟩
  · exact fun names' htwo' h => sharedPrefix_congr htwo htwo' h

/-- Two of the names go on with characters whose first bytes are alike. The third is what the others share, so that its
last character cannot be left out. -/
theorem sharedPrefix_exact_accented :
    (∀ s ∈ ["É_é".toList, "É_è".toList, "É_".toList], s ≠ []) ∧
      sharedPrefix ["É_é".toList, "É_è".toList, "É_".toList] = "É".toList ∧
      sharedPrefix ["É_".toList, "É_é".toList, "É_".toList, "É_è".toList] = "É".toList := by
  have hne : ∀ s ∈ ["É_é".toList, "É_è".toList, "É_".toList], s ≠ [] := by decide
  have hlongest : LongestStart ["É_é".toList, "É_è".toList, "É_".toList] "É_".toList :=
    longestStart_of_mem (by decide) (by decide)
  obtain ⟨⟨-, hresult⟩, -, hsame, -⟩ := sharedPrefix_exact (by decide) hne
  obtain ⟨-, hcut⟩ := hresult _ _ hlongest (.behind (s := ['É']) (r := []) List.not_mem_nil)
  have hone : sharedPrefix ["É_é".toList, "É_è".toList, "É_".toList] = "É".toList := hcut.trans (by decide)
  refine ⟨hne, hone, ?_⟩
  rw [hsame ["É_".toList, "É_é".toList, "É_".toList, "É_è".toList] (by decide) fun s => by simp; tauto, hone]

/-- **What is left out ends with an underscore**, if it has one, unless it is a name without its last underscore, with a
word and another underscore in front. -/
theorem sharedPrefix_boundary (htwo : 2 ≤ names.length) (hne : ∀ s ∈ names, s ≠ []) :
    (('_' ∉ sharedPrefix names ∨ (sharedPrefix names).getLast? = some '_') ↔
      ∀ q, q ++ ['_'] ∈ names → (∀ s ∈ names, q ++ ['_'] <+: s) → '_' ∈ q → q.getLast? = some '_') ∧
    ('_' ∉ sharedPrefix names ∨ (sharedPrefix names).getLast? = some '_' ∨
      ∀ s ∈ names, sharedPrefix names ++ ['_'] <+: s) := by
  have hends := sharedPrefix_ends htwo hne
  refine ⟨⟨fun h q hmem hall hq => ?_, fun h => ?_⟩, hends.imp_right (Or.imp_right fun h => h.2)⟩
  · rw [sharedPrefix_eq_of_concat_mem htwo hne hmem hall] at h
    exact h.resolve_left fun hnone => hnone hq
  · rcases hends with hnone | hlast | ⟨hmem, hall⟩
    · exact Or.inl hnone
    · exact Or.inr hlast
    · by_cases hq : '_' ∈ sharedPrefix names
      · exact Or.inr (h _ hmem hall hq)
      · exact Or.inl hq

/-- Where two underscores end the name in front of all, the first of them is left and ends what is left out. -/
theorem sharedPrefix_boundary_doubled :
    (∀ s ∈ ["VK__".toList, "VK__A".toList], s ≠ []) ∧ sharedPrefix ["VK__".toList, "VK__A".toList] = "VK_".toList ∧
      ('_' ∉ sharedPrefix ["VK__".toList, "VK__A".toList] ∨
        (sharedPrefix ["VK__".toList, "VK__A".toList]).getLast? = some '_') := by
  have hne : ∀ s ∈ ["VK__".toList, "VK__A".toList], s ≠ [] := by decide
  refine ⟨hne, by decide, (sharedPrefix_boundary (by decide) hne).1.mpr fun q hmem _ _ => ?_⟩
  rcases List.mem_cons.mp hmem with hq | hq
  · have hword : q ++ ['_'] = ['V', 'K', '_'] ++ ['_'] := hq
    obtain rfl := List.append_cancel_right hword
    rfl
  · have hlast := congrArg List.getLast? (List.mem_singleton.mp hq)
    rw [List.getLast?_concat] at hlast
    exact absurd hlast (by decide)

/-- `VK_KEY_` is a name itself and loses its underscore, and the underscore behind `VK` does not end it. -/
theorem sharedPrefix_shortened_word :
    sharedPrefix ["VK_KEY_".toList, "VK_KEY_A".toList] = "VK_KEY".toList ∧
      ¬ ('_' ∉ sharedPrefix ["VK_KEY_".toList, "VK_KEY_A".toList] ∨
        (sharedPrefix ["VK_KEY_".toList, "VK_KEY_A".toList]).getLast? = some '_') := by
  decide

end Names

end EnumStrings
