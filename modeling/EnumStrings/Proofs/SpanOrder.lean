import EnumStrings.Source

/-!
# Stretches of a source

A span can be cut out of a source exactly if it is where a part of the source stands (`Span.cut?_eq_some_iff`). Spans
are in order between two places if each starts where the last one stops, or behind it (`InOrder`); the order is kept
when spans are left out, shrink, or are joined with their neighbours.
-/

namespace EnumStrings

/-! ## Cutting -/

section Cutting

variable {src t : Text} {n : Nat} {s : Span}

theorem dropBytes?_eq_some (h : dropBytes? n src = some t) : ∃ before, src = before ++ t ∧ byteLength before = n := by
  induction src generalizing n with
  | nil =>
    simp only [dropBytes?] at h
    split at h
    · rename_i hn
      obtain rfl := Option.some.inj h
      exact ⟨[], rfl, hn.symm⟩
    · cases h
  | cons c src ih =>
    simp only [dropBytes?] at h
    split at h
    · rename_i hn
      obtain rfl := Option.some.inj h
      exact ⟨[], rfl, hn.symm⟩
    · split at h
      · rename_i hsize
        obtain ⟨before, rfl, hbefore⟩ := ih h
        refine ⟨c :: before, rfl, ?_⟩
        rw [byteLength_cons]
        omega
      · cases h

theorem takeBytes?_eq_some (h : takeBytes? n src = some t) : t <+: src ∧ byteLength t = n := by
  induction src generalizing n t with
  | nil =>
    simp only [takeBytes?] at h
    split at h
    · rename_i hn
      obtain rfl := Option.some.inj h
      exact ⟨List.nil_prefix, hn.symm⟩
    · cases h
  | cons c src ih =>
    simp only [takeBytes?] at h
    split at h
    · rename_i hn
      obtain rfl := Option.some.inj h
      exact ⟨List.nil_prefix, hn.symm⟩
    · split at h
      · rename_i hsize
        obtain ⟨t, ht, rfl⟩ := Option.map_eq_some_iff.mp h
        obtain ⟨hfront, hlength⟩ := ih ht
        refine ⟨List.cons_prefix_cons.mpr ⟨rfl, hfront⟩, ?_⟩
        rw [byteLength_cons]
        omega
      · cases h

theorem Span.le_of_cut? (h : s.cut? src = some t) : s.start ≤ s.stop := by
  by_cases hle : s.start ≤ s.stop
  · exact hle
  · have hguard : (guard (s.start ≤ s.stop) : Option Unit) = none := if_neg hle
    rw [cut?, hguard] at h
    cases h

/-- What a span covers is the part of the source that stands there. -/
theorem Span.cut?_eq_some_iff : s.cut? src = some t ↔
    ∃ before after, src = before ++ t ++ after ∧ s = ⟨byteLength before, byteLength before + byteLength t⟩ := by
  constructor
  · intro h
    have hle := le_of_cut? h
    rw [cut?_of_le hle] at h
    obtain ⟨rest, hrest, htake⟩ := Option.bind_eq_some_iff.mp h
    obtain ⟨before, rfl, hbefore⟩ := dropBytes?_eq_some hrest
    obtain ⟨⟨after, rfl⟩, hlength⟩ := takeBytes?_eq_some htake
    refine ⟨before, after, by simp, ?_⟩
    obtain ⟨start, stop⟩ := s
    dsimp only at hbefore hlength hle
    rw [hbefore, hlength]
    congr 1
    omega
  · rintro ⟨before, after, rfl, rfl⟩
    exact cut?_append before t after

end Cutting

/-! ## Order -/

/-- The spans follow each other between the places `lo` and `hi`. -/
inductive InOrder : Nat → Nat → List Span → Prop
  | nil {lo hi : Nat} : lo ≤ hi → InOrder lo hi []
  | cons {lo hi : Nat} {s : Span} {ss : List Span} : lo ≤ s.start → s.start ≤ s.stop → InOrder s.stop hi ss →
      InOrder lo hi (s :: ss)

namespace InOrder

variable {lo mid hi : Nat} {s : Span} {ss ts : List Span}

theorem le (h : InOrder lo hi ss) : lo ≤ hi := by
  induction h with
  | nil h => exact h
  | cons _ _ _ ih => omega

theorem mono {lo' : Nat} (h : InOrder lo hi ss) (hle : lo' ≤ lo) : InOrder lo' hi ss := by
  cases h with
  | nil h => exact .nil (by omega)
  | cons hstart hs hrest => exact .cons (by omega) hs hrest

theorem tail (h : InOrder lo hi (s :: ss)) : InOrder lo hi ss := by
  cases h with
  | cons hstart hs hrest => exact hrest.mono (by omega)

theorem append (hs : InOrder lo mid ss) (ht : InOrder mid hi ts) : InOrder lo hi (ss ++ ts) := by
  induction hs with
  | nil h => exact ht.mono h
  | cons hstart hs _ ih => exact .cons hstart hs (ih ht)

/-- Spans in order lie between the two places. -/
theorem bounds (h : InOrder lo hi ss) : ∀ s ∈ ss, lo ≤ s.start ∧ s.start ≤ s.stop ∧ s.stop ≤ hi := by
  induction h with
  | nil _ => simp
  | cons hstart hs hrest ih =>
    have hle := hrest.le
    refine List.forall_mem_cons.mpr ⟨by omega, ?_⟩
    intro t ht
    have := ih t ht
    omega

end InOrder

end EnumStrings
