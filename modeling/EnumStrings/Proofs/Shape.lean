import Mathlib.Data.List.Basic
import EnumStrings.Proofs.Composition
import EnumStrings.Proofs.RoundTrip
import EnumStrings.Proofs.LineLayout

/-!
# The shape of generated text

Whether a row of a text fits can be said from the rows above it (`Fits`): the blocks that are open there tell how far it
is indented, and the last of these rows whether it may be empty. A layout knows as much (`Stands`): its depth is the
number of open blocks, and it bars an empty row where the last row opens one. What each step needs and leaves is said by
triples (`Leads`), which are put together along the blocks that a function is made of (`Block.leads`). So all rows of a
generated text fit (`generatedText_shape`).
-/

namespace EnumStrings

/-! ## Rows that fit -/

/-- The number of tabs in front of a row. -/
def indentation (row : Text) : Nat := (row.takeWhile (· == '\t')).length

/-- A row with an opening brace and nothing else. -/
def isOpening (row : Text) : Bool := unindent row = ['{']

/-- A row with a closing brace and nothing else. -/
def isClosing (row : Text) : Bool := unindent row = ['}']

/-- The number of opening braces, less that of closing ones. -/
def balance (rs : List Text) : Int := (rs.countP isOpening : Int) - rs.countP isClosing

/-- The title of a passage, below a rule. -/
def IsTitle (above : List Text) (row : Text) : Prop :=
  above.getLast? = some bannerRule ∧ ∃ p : Passage, row = '\t' :: p.title

/-- A row fits below others. -/
structure Fits (above : List Text) (row : Text) : Prop where
  /-- No row ends with white space. -/
  trimmed : row.getLast?.any isBlank = false
  /-- Nothing is closed that is not open. -/
  balanced : 0 ≤ balance (above ++ [row])
  /-- Nothing is open at a rule. -/
  rule : unindent row = bannerRule → balance above = 0
  /-- An empty row stands below a row that is not empty and opens no block. -/
  spaced : row = [] → ∃ last, above.getLast? = some last ∧ last ≠ [] ∧ isOpening last = false
  /-- A closing brace does not stand below an empty row. -/
  closing : isClosing row = true → above.getLast? ≠ some []
  /-- A row is indented by as many tabs as there are open blocks, a closing brace by one less. -/
  indented : row ≠ [] → ¬ IsTitle above row →
    (indentation row : Int) = balance above - if isClosing row then 1 else 0

/-- Rows fit one after the other, below others. -/
def Shaped (above : List Text) : List Text → Prop
  | [] => True
  | row :: rs => Fits above row ∧ Shaped (above ++ [row]) rs

section Rows

variable {above rs qs : List Text} {row t : Text} {n : Nat}

theorem shaped_append : Shaped above (rs ++ qs) ↔ Shaped above rs ∧ Shaped (above ++ rs) qs := by
  induction rs generalizing above with
  | nil => simp [Shaped]
  | cons row rs ih => simp [Shaped, ih, and_assoc]

theorem Shaped.fits (h : Shaped [] rs) : ∀ above row below, rs = above ++ row :: below → Fits above row := by
  rintro above row below rfl
  obtain ⟨-, h⟩ := shaped_append.mp h
  simpa using h.1

theorem balance_append_singleton (above : List Text) (row : Text) : balance (above ++ [row]) =
    balance above + ((if isOpening row then 1 else 0) - if isClosing row then 1 else 0) := by
  rw [balance, balance, List.countP_append, List.countP_append, List.countP_singleton, List.countP_singleton]
  split <;> split <;> omega

/-- An empty row opens and closes nothing. -/
theorem balance_append_nil (above : List Text) : balance (above ++ [[]]) = balance above := by
  rw [balance_append_singleton]
  exact Int.add_zero _

/-- The tabs in front of a row are those that it is indented by, if its line starts with none. -/
theorem unindent_replicate (ht : t.head? ≠ some '\t') (n : Nat) : unindent (List.replicate n '\t' ++ t) = t :=
  dropWhile_append_of_head (by simp) fun _ hc => beq_eq_false_iff_ne.mpr fun heq => ht (heq ▸ hc)

theorem indentation_replicate (ht : t.head? ≠ some '\t') (n : Nat) :
    indentation (List.replicate n '\t' ++ t) = n := by
  have htabs : (List.replicate n '\t' ++ t).takeWhile (· == '\t') = List.replicate n '\t' :=
    takeWhile_append_of_head (by simp) fun _ hc => beq_eq_false_iff_ne.mpr fun heq => ht (heq ▸ hc)
  rw [indentation, htabs, List.length_replicate]

theorem isOpening_replicate (ht : t.head? ≠ some '\t') (n : Nat) :
    isOpening (List.replicate n '\t' ++ t) = decide (t = ['{']) := by
  rw [isOpening, unindent_replicate ht]

theorem isClosing_replicate (ht : t.head? ≠ some '\t') (n : Nat) :
    isClosing (List.replicate n '\t' ++ t) = decide (t = ['}']) := by
  rw [isClosing, unindent_replicate ht]

/-- A line fits where as many blocks are open as it is indented by tabs, and one more if it closes a block. -/
theorem fits_line (htab : t.head? ≠ some '\t') (hne : t ≠ []) (htrim : t.getLast?.any isBlank = false)
    (hbalance : balance above = n + if t = ['}'] then 1 else 0) (hclosing : t = ['}'] → above.getLast? ≠ some [])
    (hrule : t = bannerRule → n = 0) : Fits above (List.replicate n '\t' ++ t) where
  trimmed := by
    rw [List.getLast?_append_of_ne_nil _ hne]
    exact htrim
  balanced := by
    rw [balance_append_singleton, isOpening_replicate htab, isClosing_replicate htab, hbalance]
    simp only [decide_eq_true_eq]
    by_cases hbrace : t = ['}']
    · have hopening : t ≠ ['{'] := by rw [hbrace]; decide
      rw [if_pos hbrace, if_neg hopening]
      omega
    · rw [if_neg hbrace]
      split <;> omega
  rule h := by
    rw [unindent_replicate htab] at h
    rw [hbalance, hrule h, h]
    decide
  spaced h := absurd (List.append_eq_nil_iff.mp h).2 hne
  closing h := hclosing (by simpa [isClosing_replicate htab] using h)
  indented _ _ := by
    rw [indentation_replicate htab, hbalance, isClosing_replicate htab]
    by_cases hbrace : t = ['}'] <;> simp [hbrace]

/-- The title of a passage is no brace. -/
theorem isOpening_title (p : Passage) : isOpening ('\t' :: p.title) = false := by cases p <;> decide

theorem isClosing_title (p : Passage) : isClosing ('\t' :: p.title) = false := by cases p <;> decide

/-- The title of a passage fits below a rule. -/
theorem fits_title (p : Passage) (hlast : above.getLast? = some bannerRule) (hbalance : balance above = 0) :
    Fits above ('\t' :: p.title) where
  trimmed := by cases p <;> decide
  balanced := by
    rw [balance_append_singleton, isOpening_title, isClosing_title, hbalance]
    decide
  rule _ := hbalance
  spaced h := absurd h (List.cons_ne_nil _ _)
  closing h := by
    rw [isClosing_title] at h
    cases h
  indented _ h := absurd ⟨hlast, p, rfl⟩ h

end Rows

/-- A text that starts with something else than a tab. -/
def Flush (s : Text) : Prop := s.head?.any (· != '\t') = true

instance (s : Text) : Decidable (Flush s) := inferInstanceAs (Decidable (_ = true))

theorem Flush.head {s : Text} (h : Flush s) : s.head? ≠ some '\t' := by
  intro heq
  rw [Flush, heq] at h
  cases h

theorem Flush.left {s t : Text} (h : Flush s) : Flush (s ++ t) := by
  cases s with
  | nil => cases h
  | cons c s => exact h

theorem Flush.right {s t : Text} (hs : s.head? ≠ some '\t') (ht : Flush t) : Flush (s ++ t) := by
  cases s with
  | nil => exact ht
  | cons c s => simpa [Flush] using hs

/-! ## Layouts and the rows above them -/

/-- What a layout knows about the rows above it. -/
structure Stands (l : Layout) (above : List Text) : Prop where
  /-- Its depth is the number of open blocks. -/
  depth : balance above = l.depth
  /-- The last row is not empty. -/
  last : above.getLast? ≠ some []
  /-- An empty row may be written below a row that opens no block. -/
  gap : l.gap ≠ .barred → ∃ last, above.getLast? = some last ∧ isOpening last = false

/-- From one depth to another, steps write rows that fit. -/
def Leads (n : Nat) (steps : List Step) (m : Nat) : Prop :=
  ∀ l above, Stands l above → l.depth = n → Shaped above (l.rows steps) ∧
    Stands (steps.foldl Step.next l) (above ++ l.rows steps) ∧ (steps.foldl Step.next l).depth = m

section Triples

variable {l : Layout} {above : List Text} {steps others : List Step} {t : Text} {n m k : Nat}

theorem Leads.nil (n : Nat) : Leads n [] n := fun l above h hn => ⟨trivial, by simpa [Layout.rows] using h, hn⟩

theorem Leads.append (h : Leads n steps m) (h' : Leads m others k) : Leads n (steps ++ others) k := by
  intro l above hl hn
  obtain ⟨hrows, hm, hdepth⟩ := h l above hl hn
  obtain ⟨hrows', hk, hdepth'⟩ := h' _ _ hm hdepth
  rw [Layout.rows_append, List.foldl_append, ← List.append_assoc]
  exact ⟨shaped_append.mpr ⟨hrows, hrows'⟩, hk, hdepth'⟩

theorem Leads.flatMap {α : Type} {f : α → List Step} {xs : List α} (h : ∀ x ∈ xs, Leads n (f x) n) :
    Leads n (xs.flatMap f) n := by
  induction xs with
  | nil => exact .nil n
  | cons x xs ih =>
    obtain ⟨hx, hxs⟩ := List.forall_mem_cons.mp h
    exact hx.append (ih hxs)

/-- An empty row fits where a layout does not bar it. -/
theorem Stands.fits_nil (h : Stands l above) (hgap : l.gap ≠ .barred) : Fits above [] where
  trimmed := rfl
  balanced := by
    rw [balance_append_nil, h.depth]
    exact Int.natCast_nonneg _
  rule hrule := absurd hrule (by decide)
  spaced _ := by
    obtain ⟨last, hlast, hopening⟩ := h.gap hgap
    exact ⟨last, hlast, fun heq => h.last (heq ▸ hlast), hopening⟩
  closing hclosing := absurd hclosing (by decide)
  indented hne := absurd rfl hne

/-- The empty row in front of a step fits, and leaves as many blocks open. -/
theorem Stands.shaped_gap (h : Stands l above) {spaced : Bool} (hspaced : spaced = true → l.gap ≠ .barred) :
    Shaped above (if spaced then [[]] else []) ∧ balance (above ++ if spaced then [[]] else []) = l.depth := by
  cases spaced with
  | false => simpa [Shaped] using h.depth
  | true =>
    refine ⟨⟨h.fits_nil (hspaced rfl), trivial⟩, ?_⟩
    rw [if_pos rfl, balance_append_nil, h.depth]

/-- Behind a row that fits, perhaps with an empty row in front of it, a layout stands as the row leaves it. -/
theorem Stands.add_row (h : Stands l above) (row : Text) (spaced : Bool) (l' : Layout)
    (hspaced : spaced = true → l.gap ≠ .barred)
    (hfits : balance (above ++ if spaced then [[]] else []) = l.depth →
      Fits (above ++ if spaced then [[]] else []) row)
    (hne : row ≠ [])
    (hdepth : (l'.depth : Int) = l.depth + ((if isOpening row then 1 else 0) - if isClosing row then 1 else 0))
    (hgap : l'.gap ≠ .barred → isOpening row = false) :
    Shaped above ((if spaced then [[]] else []) ++ [row]) ∧
      Stands l' (above ++ ((if spaced then [[]] else []) ++ [row])) := by
  obtain ⟨hshaped, hbalance⟩ := h.shaped_gap hspaced
  refine ⟨shaped_append.mpr ⟨hshaped, hfits hbalance, trivial⟩, ?_⟩
  rw [← List.append_assoc]
  refine ⟨?_, ?_, fun h => ⟨row, List.getLast?_concat, hgap h⟩⟩
  · rw [balance_append_singleton, hbalance, hdepth]
  · rw [List.getLast?_concat]
    exact fun heq => hne (Option.some.inj heq)

/-- So it does behind a line that is no brace, indented by its depth. -/
theorem Stands.add_line (h : Stands l above) (t : Text) (spaced : Bool) (l' : Layout)
    (hspaced : spaced = true → l.gap ≠ .barred) (htab : t.head? ≠ some '\t') (hne : t ≠ [])
    (htrim : t.getLast?.any isBlank = false) (hopening : t ≠ ['{']) (hclosing : t ≠ ['}'])
    (hrule : t = bannerRule → l.depth = 0) (hdepth : l'.depth = l.depth) :
    Shaped above ((if spaced then [[]] else []) ++ [List.replicate l.depth '\t' ++ t]) ∧
      Stands l' (above ++ ((if spaced then [[]] else []) ++ [List.replicate l.depth '\t' ++ t])) := by
  have hopens := isOpening_replicate htab l.depth
  have hcloses := isClosing_replicate htab l.depth
  rw [decide_eq_false hopening] at hopens
  rw [decide_eq_false hclosing] at hcloses
  refine h.add_row _ spaced l' hspaced (fun hbalance => ?_) (by simp [hne]) (by simp [hopens, hcloses, hdepth])
    fun _ => hopens
  exact fits_line htab hne htrim (by simp [hbalance, hclosing]) (fun h => absurd h hclosing) hrule

/-- A single step is judged by the rows that it writes. -/
theorem leads_step {s : Step} (h : ∀ l above, Stands l above → l.depth = n →
    (Shaped above (s.rows l) ∧ Stands (s.next l) (above ++ s.rows l)) ∧ (s.next l).depth = m) : Leads n [s] m := by
  intro l above hl hn
  obtain ⟨⟨hshaped, hstands⟩, hdepth⟩ := h l above hl hn
  have hrows : l.rows [s] = s.rows l := List.append_nil _
  rw [hrows]
  exact ⟨hshaped, hstands, hdepth⟩

/-- Whether a character ends statements, signatures or template headers. -/
def endsLine (c : Char) : Bool := c == ';' || c == ')' || c == '>'

/-- A line of a function: no tab starts it, and it ends as a statement, a signature or a template header does. -/
structure IsStatement (t : Text) : Prop where
  head : t.head? ≠ some '\t'
  last : t.getLast?.any endsLine = true

theorem IsStatement.ne {s : Text} (ht : IsStatement t) (hs : s.getLast?.any endsLine = false) : t ≠ s := by
  rintro rfl
  rw [ht.last] at hs
  cases hs

theorem IsStatement.trimmed (ht : IsStatement t) : t.getLast?.any isBlank = false := by
  have hlast := ht.last
  cases hc : t.getLast? with
  | none => rfl
  | some c =>
    rw [hc, Option.any_some, endsLine] at hlast
    simp only [Bool.or_eq_true, beq_iff_eq] at hlast
    rcases hlast with (rfl | rfl) | rfl <;> decide

/-- Where an empty row is wanted it is not barred. -/
theorem ne_barred_of_wanted (h : decide (l.gap = .wanted) = true) : l.gap ≠ .barred := by
  rw [of_decide_eq_true h]
  decide

theorem leads_line (ht : IsStatement t) : Leads n [.line t] n := by
  refine leads_step fun l above h hn => ⟨?_, hn⟩
  exact h.add_line t (l.gap = .wanted) _ ne_barred_of_wanted ht.head (ht.ne (by decide)) ht.trimmed (ht.ne (by decide))
    (ht.ne (by decide)) (fun h => absurd h (ht.ne (by decide))) rfl

theorem leads_openBlock : Leads n [.openBlock] (n + 1) := by
  refine leads_step fun l above h hn => ⟨?_, congrArg (· + 1) hn⟩
  have hopens : isOpening (List.replicate l.depth '\t' ++ ['{']) = true := isOpening_replicate (by decide) _
  have hcloses : isClosing (List.replicate l.depth '\t' ++ ['{']) = false := isClosing_replicate (by decide) _
  refine h.add_row (List.replicate l.depth '\t' ++ ['{']) (l.gap = .wanted) _ ne_barred_of_wanted
    (fun hbalance => ?_) (by simp) (by simp [hopens, hcloses, Step.next]) (by simp [Step.next])
  exact fits_line (by decide) (by decide) (by decide) (by simpa using hbalance) (fun h => absurd h (by decide))
    (fun h => absurd h (by decide))

theorem leads_closeBlock : Leads (n + 1) [.closeBlock []] n := by
  refine leads_step fun l above h hn => ⟨?_, by simp [Step.next, hn]⟩
  have hopens : isOpening (List.replicate (l.depth - 1) '\t' ++ ['}']) = false := isOpening_replicate (by decide) _
  have hcloses : isClosing (List.replicate (l.depth - 1) '\t' ++ ['}']) = true := isClosing_replicate (by decide) _
  have hdepth : ((l.depth - 1 : Nat) : Int) = l.depth + (0 - 1) := by omega
  refine h.add_row (List.replicate (l.depth - 1) '\t' ++ ['}']) false _ (by simp) (fun hbalance => ?_)
    (by simp) (by rw [hopens, hcloses]; exact hdepth) fun _ => hopens
  refine fits_line (by decide) (by decide) (by decide) ?_ (fun _ => ?_) (fun h => absurd h (by decide))
  · rw [hbalance, hn]
    simp
  · simpa using h.last

theorem leads_gap : Leads n [.gap] n := by
  refine leads_step fun l above h hn => ⟨⟨trivial, ?_⟩, ?_⟩
  · have hrows : above ++ Step.gap.rows l = above := List.append_nil above
    rw [hrows, Step.next]
    split
    · exact h
    · rename_i hgap
      exact ⟨h.depth, h.last, fun _ => h.gap hgap⟩
  · rw [Step.next]
    split
    · exact hn
    · exact hn

theorem leads_banner (p : Passage) : Leads 0 [.banner p.title] 0 := by
  refine leads_step fun l above h hn => ⟨?_, hn⟩
  obtain ⟨depth, midLine, gap⟩ := l
  obtain rfl : depth = 0 := hn
  -- the rule above the title, perhaps with an empty row in front of it, the title, and the rule below it
  obtain ⟨habove, h⟩ := h.add_line bannerRule (gap ≠ .barred) ⟨0, midLine, .wanted⟩ (by simp) (by decide) (by decide)
    (by decide) (by decide) (by decide) (fun _ => rfl) rfl
  obtain ⟨htitle, h⟩ := h.add_row ('\t' :: p.title) false ⟨0, midLine, .wanted⟩ (by simp)
    (fun hbalance => fits_title p (by simp) hbalance) (by simp) (by rw [isOpening_title, isClosing_title]; rfl)
    (fun _ => isOpening_title p)
  obtain ⟨hbelow, h⟩ := h.add_line bannerRule false ⟨0, midLine, .wanted⟩ (by simp) (by decide) (by decide)
    (by decide) (by decide) (by decide) (fun _ => rfl) rfl
  have hrows : (Step.banner p.title).rows ⟨0, midLine, gap⟩ =
      ((if decide (gap ≠ .barred) then [[]] else []) ++ [bannerRule]) ++ ['\t' :: p.title] ++ [bannerRule] := by
    simp [Step.rows, Step.isSpaced, Step.rowDepth, Step.lineTexts]
  rw [hrows, shaped_append, shaped_append]
  refine ⟨⟨⟨habove, htitle⟩, ?_⟩, ?_⟩
  · rw [← List.append_assoc above]
    exact hbelow
  · rw [← List.append_assoc above, ← List.append_assoc above]
    exact h

end Triples

/-! ## Blocks -/

/-- The steps of functions: lines, gaps, and blocks in braces. -/
inductive Block : List Step → Prop where
  | nil : Block []
  | line {t : Text} {steps : List Step} : IsStatement t → Block steps → Block (.line t :: steps)
  | gap {steps : List Step} : Block steps → Block (.gap :: steps)
  | braces {inner steps : List Step} :
    Block inner → Block steps → Block (.openBlock :: (inner ++ .closeBlock [] :: steps))

section Blocks

variable {steps : List Step} {n : Nat} {o : Options} {c : Conversion} {e : Enumeration}

theorem Block.lines {α : Type} {f : α → Text} {xs : List α} (h : ∀ x ∈ xs, IsStatement (f x)) (hb : Block steps) :
    Block (xs.map (fun x => .line (f x)) ++ steps) := by
  induction xs with
  | nil => exact hb
  | cons x xs ih =>
    obtain ⟨hx, hxs⟩ := List.forall_mem_cons.mp h
    exact .line hx (ih hxs)

/-- A block leads back to the depth where it starts. -/
theorem Block.leads (h : Block steps) : Leads n steps n := by
  -- the depth is generalised, since what stands in braces starts one deeper
  induction h generalizing n with
  | nil => exact .nil n
  | line ht _ ih => exact (leads_line ht).append ih
  | gap _ ih => exact leads_gap.append ih
  | braces _ _ ihinner ih => exact leads_openBlock.append (ihinner.append (leads_closeBlock.append ih))

/-- A line is what starts as one, with the end of one behind it. -/
theorem isStatement_append {s t : Text} (hs : Flush s) (ht : t.getLast?.any endsLine = true) :
    IsStatement (s ++ t) := by
  refine ⟨hs.left.head, ?_⟩
  rw [List.getLast?_append_of_ne_nil]
  · exact ht
  · rintro rfl
    cases ht

theorem endsLine_tryParameters : (c.tryParameters o).getLast?.any endsLine = true :=
  (isStatement_append (.left (.left (.left (by decide)))) (by decide)).last

/-- Every passage is a block. -/
theorem Conversion.block_body (hname : c.name.head? ≠ some '\t') (hstring : o.stringType.head? ≠ some '\t')
    (hbool : o.boolType.head? ≠ some '\t') (p : Passage) : Block (c.body o p) := by
  have htemplate : IsStatement "template<>".toList := ⟨by decide, by decide⟩
  cases p with
  | toStringHeader =>
    refine .line (isStatement_append ?_ (by decide)) (.gap (.line htemplate (.line (isStatement_append ?_ (by decide))
      (.braces (.line ⟨by decide, by decide⟩ .nil) .nil))))
    · exact .left (.right hstring (by decide))
    · exact .left (.left (.left (by decide)))
  | toStringSource =>
    have hinner : Block (c.cases.map (fun q => .line (c.caseLine q.1 q.2)) ++
        [.line "default: return \"\";".toList]) := by
      refine .lines (fun q _ => isStatement_append ?_ (by decide)) (.line ⟨by decide, by decide⟩ .nil)
      exact .left (.left (.left (.left (.left (by decide)))))
    have hbody : c.body o .toStringSource =
        .line (o.stringType ++ " ".toList ++ qualifier o.scope ++ "to_string(".toList ++ c.name ++
          " const obj)".toList) :: .openBlock :: (.line "switch (obj)".toList :: .openBlock ::
            (c.cases.map (fun q => .line (c.caseLine q.1 q.2)) ++ [.line "default: return \"\";".toList] ++
              [.closeBlock []]) ++ [.closeBlock []]) := by
      simp [body]
    rw [hbody]
    refine .line (isStatement_append ?_ (by decide)) (.braces (.line ⟨by decide, by decide⟩ (.braces hinner .nil)) .nil)
    exact .left (.left (.left (.right hstring (by decide))))
  | parseHeader =>
    refine .line (isStatement_append ?_ (by decide)) (.line (isStatement_append ?_ (by decide)) (.gap (.line htemplate
      (.line (isStatement_append (by decide) endsLine_tryParameters) (.braces
        (.line (isStatement_append ?_ (by decide)) .nil) (.gap (.line htemplate
          (.line (isStatement_append ?_ endsLine_tryParameters) (.braces
            (.line (isStatement_append ?_ (by decide)) .nil) .nil)))))))))
    · exact .left (.left (.left (.right hname (by decide))))
    · exact .left (.left (.right hbool (by decide)))
    · exact .left (by decide)
    · exact .left (.left (by decide))
    · exact .left (by decide)
  | parseSource =>
    have hmatches : Block (c.cases.map (fun q => .line (c.matchLine q.1 q.2)) ++
        [.gap, .line ("return ".toList ++ c.name ++ "();".toList)]) := by
      refine .lines (fun q _ => isStatement_append ?_ (by decide))
        (.gap (.line (isStatement_append ?_ (by decide)) .nil))
      · exact .left (.left (.left (.left (.left (by decide)))))
      · exact .left (by decide)
    have hbody : c.body o .parseSource =
        .line (c.name ++ " ".toList ++ qualifier o.parseScope ++ "to_".toList ++ c.functionName ++ "(".toList ++
          o.stringType ++ " const& string)".toList) :: .openBlock ::
            (c.cases.map (fun q => .line (c.matchLine q.1 q.2)) ++
                [.gap, .line ("return ".toList ++ c.name ++ "();".toList)] ++
              .closeBlock [] :: .gap ::
                .line (o.boolType ++ " ".toList ++ qualifier o.parseScope ++ "try_".toList ++ c.functionName ++
                  c.tryParameters o) ::
                .openBlock :: ([.line ("value = to_".toList ++ c.functionName ++ "(string);".toList),
                  .line ("return value != ".toList ++ c.name ++ "();".toList)] ++ [.closeBlock []])) := by
      simp [body]
    rw [hbody]
    refine .line (isStatement_append ?_ (by decide)) (.braces hmatches (.gap
      (.line (isStatement_append ?_ endsLine_tryParameters) (.braces
        (.line (isStatement_append ?_ (by decide)) (.line (isStatement_append ?_ (by decide)) .nil)) .nil))))
    · exact .left (.left (.left (.left (.left (.right hname (by decide))))))
    · exact .left (.left (.left (.right hbool (by decide))))
    · exact .left (by decide)
    · exact .left (by decide)

end Blocks

/-! ## Whole texts -/

/-- The titles in a text, between its rules. -/
def titlesOf (text : Text) : List Text := (titled ((codeLines text).splitOn bannerRule).tail).map Prod.fst

section Texts

variable {o : Options} {e : Enumeration} {es : List Enumeration}

/-- No tab starts a name. -/
theorem Enumeration.Named.head (he : e.Named) : e.name.head? ≠ some '\t' := by
  intro h
  have hblank : isWord '\t' = false := isWord_eq_false_of_isBlank (by decide)
  exact ne_of_isWord (he.1.isWord _ (List.mem_of_head? h)) hblank rfl

/-- The text of enumerations starts and ends at depth 0. -/
theorem leads_stepsOf (he : ∀ e ∈ es, e.Named) (ho : ∀ s ∈ o.texts, s.head? ≠ some '\t') :
    Leads 0 (stepsOf o es) 0 := by
  refine Leads.flatMap fun e hmem => Leads.flatMap fun p _ =>
    (leads_banner p).append (Conversion.block_body ?_ ?_ ?_ p).leads
  · exact (he e hmem).head
  · exact ho _ (by simp [Options.texts])
  · exact ho _ (by simp [Options.texts])

/-- No line ends within a line of the steps. -/
theorem unbroken_stepsOf (he : ∀ e ∈ es, e.Named) (ho : ∀ s ∈ o.texts, Unbroken s) :
    ∀ t ∈ (stepsOf o es).flatMap Step.lineTexts, '\n' ∉ t := by
  intro t ht
  obtain ⟨s, hs, ht⟩ := List.mem_flatMap.mp ht
  obtain ⟨e, hmem, hs⟩ := List.mem_flatMap.mp hs
  obtain ⟨p, -, hs⟩ := List.mem_flatMap.mp hs
  rcases List.mem_cons.mp hs with rfl | hs
  · have hbanner : (Step.banner p.title).lineTexts.all (!·.contains '\n') = true := by cases p <;> decide
    simpa using List.all_eq_true.mp hbanner t ht
  · have hcode := Conversion.isCode_of_mem_body (unbroken_ofEnumeration (he e hmem) ho) p
    exact (hcode t (List.mem_flatMap_of_mem hs ht)).1

theorem rows_generatedText (he : ∀ e ∈ es, e.Named) (ho : ∀ s ∈ o.texts, Unbroken s) :
    rows (generatedText o es) = ({} : Layout).rows (stepsOf o es) :=
  rows_render isWhole_stepsOf (unbroken_stepsOf he ho)

/-- The code of enumerations is that of their passages. -/
theorem codeOf_stepsOf : codeOf (stepsOf o es) = (es.flatMap fun e =>
    Passage.all.map ((Conversion.ofEnumeration o e).passageLines o)).flatMap sectionLines := by
  induction es with
  | nil => rfl
  | cons e es ih =>
    rw [stepsOf, List.flatMap_cons, codeOf_append, Conversion.codeOf_steps, ← stepsOf, ih, List.flatMap_cons,
      List.flatMap_append]

/-- It is cut at its rules into the passages of one enumeration after the other. -/
theorem titlesOf_generatedText (he : ∀ e ∈ es, e.Named) (ho : ∀ s ∈ o.texts, Unbroken s) :
    titlesOf (generatedText o es) = es.flatMap fun _ => Passage.all.map Passage.title := by
  have hsections : ∀ s ∈ es.flatMap fun e => Passage.all.map ((Conversion.ofEnumeration o e).passageLines o),
      s.1 ≠ bannerRule ∧ bannerRule ∉ s.2 := by
    intro s hs
    obtain ⟨e, hmem, hs⟩ := List.mem_flatMap.mp hs
    obtain ⟨p, -, rfl⟩ := List.mem_map.mp hs
    refine ⟨?_, Conversion.bannerRule_notMem (unbroken_ofEnumeration (he e hmem) ho) p⟩
    show p.title ≠ bannerRule
    cases p <;> decide
  have hcode : codeLines (generatedText o es) = codeOf (stepsOf o es) := codeLines_render isWhole_stepsOf
  have hsplit := splitOn_sections (List.not_mem_nil (a := bannerRule)) hsections
  rw [List.nil_append, ← codeOf_stepsOf, ← hcode] at hsplit
  rw [titlesOf, hsplit, List.tail_cons, titled_flatMap, List.map_flatMap]
  exact List.flatMap_congr fun e _ => List.map_map ..

/-- The steps of an enumeration end with a closing brace. -/
theorem suffix_steps (c : Conversion) (o : Options) : [.closeBlock []] <:+ c.steps o := by
  have hbody : [.closeBlock []] <:+ c.body o .parseSource :=
    List.suffix_append_of_suffix ⟨[_, _, _, _, _, _, _, _], rfl⟩
  rw [Conversion.steps, Passage.all, List.flatMap_cons, List.flatMap_cons, List.flatMap_cons, List.flatMap_singleton]
  exact List.suffix_append_of_suffix (List.suffix_append_of_suffix (List.suffix_append_of_suffix
    (hbody.trans (List.suffix_cons _ _))))

/-- A text that is not empty starts with a rule and ends with a closing brace. -/
theorem generatedText_edges (o : Options) (hes : es ≠ []) :
    bannerRule ++ ['\n'] <+: generatedText o es ∧ ['}', '\n'] <:+ generatedText o es := by
  have htext : generatedText o es = ended (({} : Layout).rows (stepsOf o es)) := render_eq_ended isWhole_stepsOf
  rw [htext]
  constructor
  · obtain ⟨e, others, rfl⟩ := List.exists_cons_of_ne_nil hes
    obtain ⟨title, steps, hsteps⟩ := stepsOf_cons o e others
    rw [hsteps]
    exact List.prefix_append _ _
  · obtain ⟨steps, hsteps⟩ : [.closeBlock []] <:+ stepsOf o es := by
      obtain ⟨front, e, rfl⟩ : ∃ front e, es = front ++ [e] := ⟨_, _, (List.dropLast_concat_getLast hes).symm⟩
      rw [stepsOf, List.flatMap_append, List.flatMap_singleton]
      exact List.suffix_append_of_suffix (suffix_steps _ o)
    have hlast : ∀ l : Layout, ['}', '\n'] <:+ ended (l.rows [.closeBlock []]) := fun l =>
      ⟨List.replicate (l.depth - 1) '\t', by
        simp [ended, Layout.rows, Step.rows, Step.isSpaced, Step.rowDepth, Step.lineTexts]⟩
    rw [← hsteps, Layout.rows_append, ended_append]
    exact List.suffix_append_of_suffix (hlast _)

/-- **The shape of generated text**: a rule at the front, a closing brace at the end, balanced blocks, and the titles of
the four passages, once for each enumeration. -/
theorem generatedText_shape (he : ∀ e ∈ es, e.Named) (ho : ∀ s ∈ o.texts, '\n' ∉ s ∧ s.head? ≠ some '\t') :
    (generatedText o es = [] ↔ es = []) ∧
    (es ≠ [] → bannerRule ++ ['\n'] <+: generatedText o es ∧ ['}', '\n'] <:+ generatedText o es) ∧
    generatedText o es = ended (rows (generatedText o es)) ∧
    (∀ above row below, rows (generatedText o es) = above ++ row :: below → Fits above row) ∧
    balance (rows (generatedText o es)) = 0 ∧
    titlesOf (generatedText o es) = es.flatMap fun _ => Passage.all.map Passage.title := by
  have hbreak : ∀ s ∈ o.texts, Unbroken s := fun s hs => (ho s hs).1
  have hrows := rows_generatedText he hbreak
  have hstart : Stands {} [] := ⟨rfl, by simp, fun h => absurd rfl h⟩
  obtain ⟨hshaped, hend, hdepth⟩ := leads_stepsOf he (fun s hs => (ho s hs).2) {} [] hstart rfl
  refine ⟨generatedText_eq_nil_iff, generatedText_edges o, ?_, ?_, ?_, titlesOf_generatedText he hbreak⟩
  · rw [hrows]
    exact render_eq_ended isWhole_stepsOf
  · rw [hrows]
    exact hshaped.fits
  · have hbalance := hend.depth
    rw [List.nil_append, hdepth] at hbalance
    rw [hrows]
    exact hbalance

end Texts

/-- An enumeration with a repeated member and one without members, and a type that starts with a space. -/
theorem generatedText_shape_spaced :
    (∀ above row below, rows (generatedText { scope := [], stringType := " char".toList, stripPrefix := true }
        [⟨['E'], [⟨['A'], 8⟩, ⟨['A'], 11⟩], ⟨0, 14⟩⟩, ⟨['F'], [], ⟨16, 22⟩⟩]) = above ++ row :: below →
          Fits above row) ∧
      titlesOf (generatedText { scope := [], stringType := " char".toList, stripPrefix := true }
        [⟨['E'], [⟨['A'], 8⟩, ⟨['A'], 11⟩], ⟨0, 14⟩⟩, ⟨['F'], [], ⟨16, 22⟩⟩]) =
          Passage.all.map Passage.title ++ Passage.all.map Passage.title := by
  have hname : ∀ {c : Char}, c.isAlpha = true → EnumName [c] := fun h => .mk h (List.forall_mem_nil _)
  have hmember : MemberName ['A'] := ⟨List.cons_ne_nil _ _, List.forall_mem_singleton.mpr (isWord_of_isAlpha rfl)⟩
  have hnamed : ∀ e ∈ [(⟨['E'], [⟨['A'], 8⟩, ⟨['A'], 11⟩], ⟨0, 14⟩⟩ : Enumeration), ⟨['F'], [], ⟨16, 22⟩⟩],
      e.Named := by
    refine List.forall_mem_cons.mpr ⟨⟨hname rfl, ?_⟩, List.forall_mem_singleton.mpr ⟨hname rfl, ?_⟩⟩
    · exact List.forall_mem_cons.mpr ⟨hmember, List.forall_mem_singleton.mpr hmember⟩
    · exact List.forall_mem_nil _
  obtain ⟨-, -, -, hfits, -, htitles⟩ := generatedText_shape
    (o := { scope := [], stringType := " char".toList, stripPrefix := true }) hnamed (by decide)
  exact ⟨hfits, htitles⟩

end EnumStrings
