import EnumStrings.Proofs.Places
import EnumStrings.Proofs.Scanning

/-!
# Lines tile their source

A source is scanned from byte to byte: from the byte where a line starts, the next terminator is looked for, the line is
cut off in front of it, and the scan goes on behind it (`nextLine?`). One step reads what `Lined` says stands there
(`nextLine?_append`), so every scan ends, and with the lines of the source only (`scan_iff`).

* With what ends them, the lines cover the source without a gap: each starts behind the terminator of the one in front
  of it (`Tiled`).
* Which terminators were chosen does not show in the texts: they are the same with line feeds in their place
  (`Lined.withLineFeeds`).
-/

namespace EnumStrings

/-! ## The scan -/

/-- The byte at which the first character stands that ends a line. -/
def terminatorAt? : Text → Option Nat
  | [] => none
  | c :: s => if isTerminator c then some 0 else (terminatorAt? s).map (c.utf8Size + ·)

/-- The line that starts at byte `n` of a source, and the byte at which the next one starts. -/
def nextLine? (src : Text) (n : Nat) : Option (Excerpt × Nat) := do
  let rest ← dropBytes? n src
  match terminatorAt? rest with
  | some i =>
    let text ← takeBytes? i rest
    let ending ← dropBytes? i rest
    return (⟨text, n⟩, n + i + if "\r\n".toList <+: ending then 2 else 1)
  | none => return (⟨rest, n⟩, byteLength src)

/-- The scan of a source from byte `n` on ends, with these lines. -/
inductive Scan (src : Text) : Nat → List Excerpt → Prop
  | done {n : Nat} : byteLength src ≤ n → Scan src n []
  | line {n m : Nat} {l : Excerpt} {ls : List Excerpt} : n < byteLength src → nextLine? src n = some (l, m) →
      Scan src m ls → Scan src n (l :: ls)

section Scans

variable {l e s src before : Text} {ls : List Text} {xs ys : List Excerpt} {n : Nat}

theorem terminatorAt?_eq_none (hl : InLine l) : terminatorAt? l = none := by
  induction l with
  | nil => rfl
  | cons c l ih =>
    obtain ⟨hc, hl⟩ := List.forall_mem_cons.mp hl
    simp [terminatorAt?, hc, ih hl]

theorem terminatorAt?_append (hl : InLine l) (hs : s.head?.any isTerminator = true) :
    terminatorAt? (l ++ s) = some (byteLength l) := by
  induction l with
  | nil =>
    cases s with
    | nil => cases hs
    | cons c s => exact if_pos hs
  | cons c l ih =>
    obtain ⟨hc, hl⟩ := List.forall_mem_cons.mp hl
    simp [terminatorAt?, hc, ih hl]

/-- A carriage return and a line feed stand behind a line exactly if they end it, and they have two bytes. -/
theorem Terminator.size (he : Terminator e) (hs : e = ['\r'] → s.head? ≠ some '\n') :
    (if "\r\n".toList <+: e ++ s then 2 else 1) = byteLength e := by
  cases he with
  | lineFeed =>
    have hnot : ¬ "\r\n".toList <+: ['\n'] ++ s := fun h => absurd (List.cons_prefix_cons.mp h).1 (by decide)
    rw [if_neg hnot]
    rfl
  | carriageReturn =>
    have hnot : ¬ "\r\n".toList <+: ['\r'] ++ s := by
      intro h
      obtain ⟨-, ⟨r, rfl⟩⟩ := List.cons_prefix_cons.mp h
      exact hs rfl rfl
    rw [if_neg hnot]
    rfl
  | both =>
    have hboth : "\r\n".toList <+: ['\r', '\n'] ++ s := List.prefix_append _ s
    rw [if_pos hboth]
    rfl

/-- A step reads the line that stands in the source from some byte on. -/
theorem nextLine?_append (hl : InLine l) (he : Terminator e) (hs : e = ['\r'] → s.head? ≠ some '\n') :
    nextLine? (before ++ (l ++ (e ++ s))) (byteLength before) =
      some (⟨l, byteLength before⟩, byteLength before + byteLength l + byteLength e) := by
  have hhead : (e ++ s).head?.any isTerminator = true := by cases he <;> rfl
  simp only [nextLine?, dropBytes?_append, terminatorAt?_append hl hhead, takeBytes?_append, he.size hs,
    Option.bind_eq_bind, Option.bind_some]
  rfl

/-- The last line may end with the source. -/
theorem nextLine?_last (hl : InLine l) : nextLine? (before ++ l) (byteLength before) =
    some (⟨l, byteLength before⟩, byteLength (before ++ l)) := by
  simp only [nextLine?, dropBytes?_append, terminatorAt?_eq_none hl, Option.bind_eq_bind, Option.bind_some]
  rfl

/-- From the start of a line on, the scan ends with the lines that are there. -/
theorem Lined.scan (h : Lined ls s) (before : Text) :
    Scan (before ++ s) (byteLength before) (Excerpt.place (byteLength before) (terminatedLines s)) := by
  induction h generalizing before with
  | nil =>
    rw [terminatedLines]
    exact .done (by simp)
  | @last l hne hl =>
    have hpos : byteLength l ≠ 0 := mt byteLength_eq_zero_iff.mp hne
    rw [terminatedLines_eq_singleton hne hl]
    refine .line ?_ (nextLine?_last hl) (.done (Nat.le_refl _))
    rw [byteLength_append]
    omega
  | @cons l e ls s hl he hs _ ih =>
    have hpos : 0 < byteLength e := by cases he <;> decide
    have hbehind := ih (before ++ l ++ e)
    rw [terminatedLines_append hl he hs]
    refine .line ?_ (nextLine?_append hl he hs) ?_
    · simp only [byteLength_append]
      omega
    · rw [byteLength_append, byteLength_append, List.append_assoc, List.append_assoc] at hbehind
      exact hbehind

/-- Scans that start at the same byte end with the same lines. -/
theorem Scan.unique (hx : Scan src n xs) (hy : Scan src n ys) : xs = ys := by
  induction hx generalizing ys with
  | done hend =>
    cases hy with
    | done _ => rfl
    | line hlt _ _ => omega
  | line hlt hnext _ ih =>
    cases hy with
    | done hend => omega
    | line _ hnext' hrest =>
      rw [hnext] at hnext'
      obtain ⟨rfl, rfl⟩ := Prod.mk.inj (Option.some.inj hnext')
      rw [ih hrest]

/-- The scan of a source ends, with the lines of the source and no others. -/
theorem scan_iff : Scan src 0 xs ↔ xs = lines src := by
  obtain ⟨ls, h⟩ := exists_lined src
  have hscan : Scan src 0 (lines src) := h.scan []
  exact ⟨fun hx => hx.unique hscan, fun hx => hx ▸ hscan⟩

end Scans

/-! ## Tiles -/

/-- The text that lines make up with what ends them. -/
def joined (parts : List (Excerpt × Text)) : Text := parts.flatMap fun p => p.1.text ++ p.2

/-- From byte `n` on, lines follow each other, each ended by a whole terminator, but the last one may do without if it
is not empty. -/
inductive Tiled : Nat → List (Excerpt × Text) → Prop
  | nil {n : Nat} : Tiled n []
  | last {n : Nat} {l : Text} : l ≠ [] → InLine l → Tiled n [(⟨l, n⟩, [])]
  | cons {n : Nat} {l e : Text} {parts : List (Excerpt × Text)} : InLine l → Terminator e →
      (e = ['\r'] → (joined parts).head? ≠ some '\n') → Tiled (n + byteLength l + byteLength e) parts →
      Tiled n ((⟨l, n⟩, e) :: parts)

/-- The text with a line feed in place of each carriage return, and of each line feed with a carriage return in front
of it. -/
def withLineFeeds : Text → Text
  | '\r' :: '\n' :: s => '\n' :: withLineFeeds s
  | '\r' :: s => '\n' :: withLineFeeds s
  | c :: s => c :: withLineFeeds s
  | [] => []

section Tiles

variable {l e s : Text} {ls : List Text}

/-- From any byte on, the lines of a source tile it. -/
theorem Lined.tiled (h : Lined ls s) (n : Nat) : ∃ parts, Tiled n parts ∧ joined parts = s ∧
    parts.map Prod.fst = Excerpt.place n (terminatedLines s) := by
  induction h generalizing n with
  | nil => exact ⟨[], .nil, rfl, by rw [terminatedLines]; rfl⟩
  | @last l hne hl => exact ⟨_, .last hne hl, by simp [joined], by rw [terminatedLines_eq_singleton hne hl]; rfl⟩
  | @cons l e ls s hl he hs _ ih =>
    obtain ⟨parts, htiled, rfl, hlines⟩ := ih (n + byteLength l + byteLength e)
    refine ⟨_, .cons hl he hs htiled, by simp [joined], ?_⟩
    rw [terminatedLines_append hl he hs, List.map_cons, hlines]
    rfl

theorem withLineFeeds_append (hl : InLine l) (s : Text) : withLineFeeds (l ++ s) = l ++ withLineFeeds s := by
  induction l with
  | nil => rfl
  | cons c l ih =>
    obtain ⟨hc, hl⟩ := List.forall_mem_cons.mp hl
    have hreturn : c ≠ '\r' := by
      rintro rfl
      cases hc
    rw [List.cons_append, withLineFeeds, ih hl, List.cons_append]
    · rintro s rfl
      exact absurd rfl hreturn
    · exact hreturn

theorem withLineFeeds_terminator (he : Terminator e) (hs : e = ['\r'] → s.head? ≠ some '\n') :
    withLineFeeds (e ++ s) = '\n' :: withLineFeeds s := by
  cases he with
  | lineFeed => rfl
  | carriageReturn =>
    cases s with
    | nil => rfl
    | cons c s =>
      have hc : c ≠ '\n' := fun h => hs rfl (congrArg some h)
      show withLineFeeds ('\r' :: c :: s) = '\n' :: withLineFeeds (c :: s)
      rw [withLineFeeds]
      rintro s h
      exact hc (List.cons.inj h).1
  | both => rfl

/-- With line feeds in place of their terminators, lines stay what they are. -/
theorem Lined.withLineFeeds (h : Lined ls s) : Lined ls (withLineFeeds s) := by
  induction h with
  | nil => exact .nil
  | @last l hne hl =>
    have hline := withLineFeeds_append hl []
    rw [List.append_nil] at hline
    rw [hline]
    simpa [EnumStrings.withLineFeeds] using Lined.last hne hl
  | @cons l e ls s hl he hs _ ih =>
    rw [withLineFeeds_append hl, withLineFeeds_terminator he hs]
    exact .cons hl .lineFeed (by simp) ih

end Tiles

/-- **Lines tile their source**: the scan ends with its lines, which with their terminators make up the source, and do
not depend on the terminators. -/
theorem lines_tile (src : Text) :
    (∀ ls, Scan src 0 ls ↔ ls = lines src) ∧
    (∃ parts, Tiled 0 parts ∧ joined parts = src ∧ parts.map Prod.fst = lines src) ∧
    (∀ l ∈ lines src, l.span.cut? src = some l.text) ∧
    (lines (withLineFeeds src)).map (·.text) = (lines src).map (·.text) := by
  obtain ⟨ls, h⟩ := exists_lined src
  refine ⟨fun _ => scan_iff, h.tiled 0, standsIn_of_mem_lines, ?_⟩
  rw [h.withLineFeeds.map_text_lines, h.map_text_lines]

end EnumStrings
