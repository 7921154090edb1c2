import EnumStrings.Proofs.Grammar
import EnumStrings.Source

/-!
# Lines and groups of a source

- A source that is made of lines and terminators is cut into these lines (`map_text_lines`), if no carriage return ends
  a line in front of a line feed, since the two would end it together (`Lined`).
- A blank line parts the groups: those in front of it and those behind it do not depend on each other
  (`ofLines_append_cons`), and lines without a blank one among them are one group (`ofLines_run`).
-/

namespace EnumStrings

/-! ## Lines -/

/-- What may end a line. -/
inductive Terminator : Text → Prop
  | lineFeed : Terminator ['\n']
  | carriageReturn : Terminator ['\r']
  | both : Terminator ['\r', '\n']

/-- No line ends within the text. -/
def InLine (l : Text) : Prop := ∀ c ∈ l, isTerminator c = false

instance (l : Text) : Decidable (InLine l) := List.decidableBAll (isTerminator · = false) l

/-- The source consists of the lines, each with some terminator; the last one may end with the source. -/
inductive Lined : List Text → Text → Prop
  | nil : Lined [] []
  | last {l : Text} : l ≠ [] → InLine l → Lined [l] l
  | cons {l e : Text} {ls : List Text} {s : Text} : InLine l → Terminator e → (e = ['\r'] → s.head? ≠ some '\n') →
      Lined ls s → Lined (l :: ls) (l ++ (e ++ s))

section Lines

variable {l e s : Text}

/-- A source that is not empty has a first line. -/
theorem terminatedLines_of_ne_nil (h : s ≠ []) :
    terminatedLines s = (firstLine s, (splitTerminator (afterFirstLine s)).1) ::
      terminatedLines (splitTerminator (afterFirstLine s)).2 := by
  cases s with
  | nil => exact absurd rfl h
  | cons c s => rw [terminatedLines]

/-- A terminator starts with a character that ends a line. -/
theorem Terminator.head (he : Terminator e) (s : Text) : ∀ c ∈ (e ++ s).head?, isTerminator c = true := by
  cases he <;> exact forall_head?_cons (by decide) _

/-- A terminator is split off, if it is not half of a longer one. -/
theorem splitTerminator_append_of (he : Terminator e) (hs : e = ['\r'] → s.head? ≠ some '\n') :
    splitTerminator (e ++ s) = (e, s) := by
  cases he with
  | lineFeed => cases s <;> rfl
  | carriageReturn =>
    unfold splitTerminator
    split
    case h_1 heq =>
      obtain rfl := (List.cons.inj heq).2
      exact absurd rfl (hs rfl)
    case h_2 heq =>
      obtain ⟨rfl, rfl⟩ := List.cons.inj heq
      rfl
    case h_3 heq => cases heq
  | both => rfl

/-- A line is a run of characters that end no line. -/
theorem InLine.run (hl : InLine l) : ∀ c ∈ l, (!isTerminator c) = true := by
  intro c hc
  simp [hl c hc]

/-- A line and its terminator are cut off the source behind them. -/
theorem terminatedLines_append (hl : InLine l) (he : Terminator e) (hs : e = ['\r'] → s.head? ≠ some '\n') :
    terminatedLines (l ++ (e ++ s)) = (l, e) :: terminatedLines s := by
  have hne : l ++ (e ++ s) ≠ [] := by cases he <;> simp
  have hrun := hl.run
  have hhead : ∀ c ∈ (e ++ s).head?, (!isTerminator c) = false := by
    intro c hc
    simp [he.head s c hc]
  have hfirst : firstLine (l ++ (e ++ s)) = l := takeWhile_append_of_head hrun hhead
  have hafter : afterFirstLine (l ++ (e ++ s)) = e ++ s := dropWhile_append_of_head hrun hhead
  rw [terminatedLines_of_ne_nil hne, hfirst, hafter, splitTerminator_append_of he hs]

/-- A source without a terminator is one line. -/
theorem terminatedLines_eq_singleton (hne : l ≠ []) (hl : InLine l) : terminatedLines l = [(l, [])] := by
  have hrun := hl.run
  have hfirst : firstLine l = l := by simpa [firstLine] using takeWhile_append_of_head (s := []) hrun (by simp)
  have hafter : afterFirstLine l = [] := by
    simpa [afterFirstLine] using dropWhile_append_of_head (s := []) hrun (by simp)
  rw [terminatedLines_of_ne_nil hne, hfirst, hafter, splitTerminator, terminatedLines]

/-- The source is cut into the lines that it consists of. -/
theorem Lined.map_fst {ls : List Text} (h : Lined ls s) : (terminatedLines s).map Prod.fst = ls := by
  induction h with
  | nil => rw [terminatedLines]; rfl
  | last hne hl => rw [terminatedLines_eq_singleton hne hl]; rfl
  | cons hl he hs _ ih => rw [terminatedLines_append hl he hs, List.map_cons, ih]

/-- The texts of the lines are those that the source consists of. -/
theorem Lined.map_text_lines {ls : List Text} (h : Lined ls s) : (lines s).map (·.text) = ls := by
  rw [lines, Excerpt.map_text_place, h.map_fst]

/-- No line ends within a line. -/
theorem Lined.inLine {ls : List Text} (h : Lined ls s) : ∀ l ∈ ls, InLine l := by
  induction h with
  | nil => exact List.forall_mem_nil _
  | last _ hl => exact List.forall_mem_singleton.mpr hl
  | cons hl _ _ _ ih => exact List.forall_mem_cons.mpr ⟨hl, ih⟩

/-- What is split off a text that starts with the end of a line is a terminator, and not half of a longer one. -/
theorem terminator_splitTerminator (hne : s ≠ []) (hhead : ∀ c ∈ s.head?, isTerminator c = true) :
    Terminator (splitTerminator s).1 ∧
      ((splitTerminator s).1 = ['\r'] → (splitTerminator s).2.head? ≠ some '\n') := by
  fun_cases splitTerminator s with
  | case1 r => exact ⟨.both, by simp⟩
  | case2 c r hnot =>
    have hc : c = '\n' ∨ c = '\r' := by simpa [isTerminator] using hhead c rfl
    rcases hc with rfl | rfl
    · exact ⟨.lineFeed, by simp⟩
    · refine ⟨.carriageReturn, fun _ hr => ?_⟩
      obtain ⟨r', rfl⟩ := List.head?_eq_some_iff.mp hr
      exact hnot r' rfl rfl
  | case3 => exact absurd rfl hne

/-- Every source consists of lines. -/
theorem exists_lined (s : Text) : ∃ ls, Lined ls s := by
  fun_induction terminatedLines s with
  | case1 => exact ⟨[], .nil⟩
  | case2 c s ih =>
    obtain ⟨ls, hls⟩ := ih
    have hline : InLine (firstLine (c :: s)) := by
      intro d hd
      simpa using List.all_eq_true.mp List.all_takeWhile d hd
    have happend := firstLine_append_afterFirstLine (c :: s)
    by_cases hafter : afterFirstLine (c :: s) = []
    · rw [hafter, List.append_nil] at happend
      rw [happend] at hline
      exact ⟨_, .last (List.cons_ne_nil c s) hline⟩
    · have hhead : ∀ d ∈ (afterFirstLine (c :: s)).head?, isTerminator d = true := by
        intro d hd
        have hnot := List.head?_dropWhile_not (!isTerminator ·) (c :: s)
        rw [← afterFirstLine, Option.mem_def.mp hd] at hnot
        simpa using hnot
      obtain ⟨hterminator, hnot⟩ := terminator_splitTerminator hafter hhead
      have hsource := Lined.cons hline hterminator hnot hls
      rw [splitTerminator_append, happend] at hsource
      exact ⟨_, hsource⟩

end Lines

/-! ## Groups -/

namespace Group

variable {l b : Excerpt} {xs ys : List Excerpt}

/-- A blank line at the front belongs to no group. -/
theorem ofLines_cons_blank (hb : b.isBlank = true) : ofLines (b :: ys) = ofLines ys := by
  rw [ofLines, if_pos hb]

/-- Lines of which none is blank are one group. -/
theorem ofLines_run (hl : l.isBlank = false) (hx : ∀ x ∈ xs, x.isBlank = false)
    (hy : ∀ y ∈ ys.head?, y.isBlank = true) :
    ofLines (l :: xs ++ ys) = ⟨l, xs⟩ :: ofLines ys := by
  have hrun : ∀ x ∈ xs, (!x.isBlank) = true := by
    intro x h
    simp [hx x h]
  have hend : ∀ y ∈ ys.head?, (!y.isBlank) = false := by
    intro y h
    simp [hy y h]
  rw [List.cons_append, ofLines, if_neg (by simp [hl]), takeWhile_append_of_head hrun hend,
    dropWhile_append_of_head hrun hend]

/-- A blank line parts the groups. -/
theorem ofLines_append_cons (hb : b.isBlank = true) (xs ys : List Excerpt) :
    ofLines (xs ++ b :: ys) = ofLines xs ++ ofLines ys := by
  fun_induction ofLines xs with
  | case1 => exact ofLines_cons_blank hb
  | case2 l ls h ih => rw [List.cons_append, ofLines_cons_blank h, ih]
  | case3 l ls h ih =>
    have hrun : ∀ x ∈ ls.takeWhile (!·.isBlank), x.isBlank = false := by
      intro x hx
      simpa using List.all_eq_true.mp List.all_takeWhile x hx
    have hend : ∀ y ∈ (ls.dropWhile (!·.isBlank) ++ b :: ys).head?, y.isBlank = true := by
      intro y hy
      cases hd : ls.dropWhile (!·.isBlank) with
      | nil =>
        obtain rfl : b = y := by simpa [hd] using hy
        exact hb
      | cons d ds =>
        have hnot := List.head?_dropWhile_not (!·.isBlank) ls
        obtain rfl : d = y := by simpa [hd] using hy
        simpa [hd] using hnot
    have hsplit : l :: ls ++ b :: ys = l :: ls.takeWhile (!·.isBlank) ++ (ls.dropWhile (!·.isBlank) ++ b :: ys) := by
      rw [List.cons_append, List.cons_append, ← List.append_assoc, List.takeWhile_append_dropWhile]
    rw [hsplit, ofLines_run (by simpa using h) hrun hend, ih, List.cons_append]

end Group

end EnumStrings
