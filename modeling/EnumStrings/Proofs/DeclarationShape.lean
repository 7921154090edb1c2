import EnumStrings.Diagnostic
import EnumStrings.Proofs.DeclarationReading
import EnumStrings.Proofs.EnumeratorReading

/-!
# What is read is a declaration

The converse of the reading lemmas: a line that is accepted starts with a head, and the declaration is what its tail
says (`exists_head_of_ofLine?`). So the name is a name (`enumName_of_ofLine?`), and the members between the braces
stand on the line where the declaration says that they start (`body_of_ofLine?`).

Where a group stands decides the places of its members, and nothing else: whether it declares an enum, and which, is
told by the texts of its lines (`ofGroup_eq_ok`). Every enumeration of a source is read off one of its groups
(`exists_group_of_mem`), so its name and the names of its members are names (`named_of_mem`).
-/

namespace EnumStrings

section Tokens

variable {s r n : Text}

/-- White space stands in front of what is left of a text behind it. -/
theorem exists_blanks (s : Text) : ∃ w, Blanks w ∧ s = w ++ skipBlanks s :=
  ⟨s.takeWhile isBlank, fun _ hc => List.all_eq_true.mp List.all_takeWhile _ hc, List.takeWhile_append_dropWhile.symm⟩

/-- Required white space has been there. -/
theorem exists_blanks_of_skipSomeBlanks? (h : skipSomeBlanks? s = some r) :
    ∃ w, Blanks w ∧ w ≠ [] ∧ s = w ++ r := by
  cases s with
  | nil => cases h
  | cons c s =>
    simp only [skipSomeBlanks?] at h
    split at h
    · rename_i hc
      obtain rfl := Option.some.inj h
      obtain ⟨w, hw, hs⟩ := exists_blanks s
      exact ⟨c :: w, List.forall_mem_cons.mpr ⟨hc, hw⟩, List.cons_ne_nil c w, congrArg (c :: ·) hs⟩
    · cases h

/-- What is read as a name is one. -/
theorem enumName_of_identifier? (h : identifier? s = some (n, r)) : EnumName n ∧ s = n ++ r := by
  cases s with
  | nil => cases h
  | cons c s =>
    simp only [identifier?] at h
    split at h
    · rename_i hc
      have hword : isWord c = true := isWord_of_isAlpha hc
      rw [List.takeWhile_cons_of_pos hword, List.dropWhile_cons_of_pos hword] at h
      obtain ⟨rfl, rfl⟩ := Prod.mk.inj (Option.some.inj h)
      refine ⟨.mk hc fun d hd => List.all_eq_true.mp List.all_takeWhile d hd, ?_⟩
      rw [List.cons_append, List.takeWhile_append_dropWhile]
    · cases h

/-- A word is read as far as it goes. -/
theorem head_of_identifier? (h : identifier? s = some (n, r)) : ∀ c ∈ r.head?, isWord c = false := by
  cases s with
  | nil => cases h
  | cons c s =>
    simp only [identifier?] at h
    split at h
    · obtain ⟨-, rfl⟩ := Prod.mk.inj (Option.some.inj h)
      intro d hd
      have hnot := List.head?_dropWhile_not isWord (c :: s)
      rw [hd] at hnot
      simpa using hnot
    · cases h

/-- The name that comes next has stood behind white space. -/
theorem exists_blanks_of_nextName? (h : nextName? s = some (n, r)) :
    ∃ v, Blanks v ∧ v ≠ [] ∧ EnumName n ∧ (∀ c ∈ r.head?, isWord c = false) ∧ s = v ++ (n ++ r) := by
  obtain ⟨t, ht, hn⟩ := Option.bind_eq_some_iff.mp h
  obtain ⟨v, hv, hne, rfl⟩ := exists_blanks_of_skipSomeBlanks? ht
  obtain ⟨hname, rfl⟩ := enumName_of_identifier? hn
  exact ⟨v, hv, hne, hname, head_of_identifier? hn, rfl⟩

/-- A word has stood behind white space, and it is the name unless it is a qualifier and a name comes next. -/
theorem exists_word_of_declaredName? {p : Text × Text} (h : (skipSomeBlanks? s).bind declaredName? = some p) :
    ∃ v word t, Blanks v ∧ v ≠ [] ∧ EnumName word ∧ (∀ c ∈ t.head?, isWord c = false) ∧ s = v ++ (word ++ t) ∧
      p = if word ∈ qualifiers then (nextName? t).getD (word, t) else (word, t) := by
  obtain ⟨u, hu, hdeclared⟩ := Option.bind_eq_some_iff.mp h
  obtain ⟨v, hv, hne, rfl⟩ := exists_blanks_of_skipSomeBlanks? hu
  rw [declaredName?_eq] at hdeclared
  obtain ⟨⟨word, t⟩, hword, rfl⟩ := Option.map_eq_some_iff.mp hdeclared
  obtain ⟨hname, rfl⟩ := enumName_of_identifier? hword
  exact ⟨v, word, t, hv, hne, hname, head_of_identifier? hword, rfl, rfl⟩

/-- The name of an enum has stood behind white space and perhaps a qualifier. -/
theorem exists_qualifier_of_declaredName? (h : (skipSomeBlanks? s).bind declaredName? = some (n, r)) :
    ∃ q v, QualifierPart q ∧ Blanks v ∧ v ≠ [] ∧ EnumName n ∧ s = q ++ (v ++ (n ++ r)) := by
  obtain ⟨w, word, t, hw, hne, hword, -, rfl, hread⟩ := exists_word_of_declaredName? h
  split at hread
  · rename_i hq
    cases hnext : nextName? t with
    | none =>
      rw [hnext, Option.getD_none] at hread
      obtain ⟨rfl, rfl⟩ := Prod.mk.inj hread
      exact ⟨[], w, .absent, hw, hne, hword, rfl⟩
    | some found =>
      rw [hnext, Option.getD_some] at hread
      subst hread
      obtain ⟨v, hv, hvne, hname, -, rfl⟩ := exists_blanks_of_nextName? hnext
      exact ⟨w ++ word, v, .present hw hne hq, hv, hvne, hname, by simp only [List.append_assoc]⟩
  · obtain ⟨rfl, rfl⟩ := Prod.mk.inj hread
    exact ⟨[], w, .absent, hw, hne, hword, rfl⟩

/-- The words of a type have stood in front of what is left behind them. -/
theorem exists_words_of_skipTypeWords (s : Text) : (∀ c ∈ s.head?, isTypeStart c = false) ∨
    ∃ t w, TypeWords t ∧ Blanks w ∧ s = t ++ (w ++ skipTypeWords s) := by
  fun_induction skipTypeWords s with
  | case1 => exact Or.inl (by simp)
  | case2 c s hc ih =>
    have hword : TypeWord (c :: s.takeWhile isTypeChar) :=
      .mk hc fun d hd => List.all_eq_true.mp List.all_takeWhile d hd
    obtain ⟨w, hw, hrest⟩ := exists_blanks (s.dropWhile isTypeChar)
    have hs : c :: s = (c :: s.takeWhile isTypeChar) ++ (w ++ skipBlanks (s.dropWhile isTypeChar)) := by
      rw [← hrest, List.cons_append, List.takeWhile_append_dropWhile]
    refine Or.inr ?_
    rcases ih with hend | ⟨t, v, ht, hv, hmore⟩
    · have hstop : skipTypeWords (skipBlanks (s.dropWhile isTypeChar)) = skipBlanks (s.dropWhile isTypeChar) := by
        cases hb : skipBlanks (s.dropWhile isTypeChar) with
        | nil => rw [skipTypeWords]
        | cons d u =>
          rw [hb] at hend
          rw [skipTypeWords, if_neg (by simp [hend d rfl])]
      exact ⟨_, w, .one hword, hw, by rw [hstop]; exact hs⟩
    · -- white space stands between the two words, since the first one would go on otherwise
      have hne : w ≠ [] := by
        rintro rfl
        obtain ⟨d, u, rfl, hd⟩ := ht.exists_cons
        have hnot := List.head?_dropWhile_not isTypeChar s
        rw [hrest, List.nil_append, hmore] at hnot
        simp [isTypeChar_of_isTypeStart hd] at hnot
      refine ⟨_, v, .more hword hw hne ht, hv, ?_⟩
      conv => lhs; rw [hs, hmore]
      simp only [List.append_assoc]
  | case3 c s hc => exact Or.inl (forall_head?_cons (by simpa using hc) s)

/-- The underlying type has stood in front of what is left behind it. -/
theorem exists_underlying_of_skipUnderlying? (h : skipUnderlying? s = some r) :
    ∃ u w, UnderlyingPart u ∧ Blanks w ∧ s = u ++ (w ++ r) := by
  obtain ⟨w, hw, hs⟩ := exists_blanks s
  unfold skipUnderlying? at h
  split at h
  · rename_i s' hcolon
    obtain ⟨v, hv, hs'⟩ := exists_blanks s'
    split at h
    · rename_i c t htype
      split at h
      · rename_i hc
        obtain rfl := Option.some.inj h
        rcases exists_words_of_skipTypeWords (c :: t) with hend | ⟨t', x, ht, hx, hwords⟩
        · rw [hend c rfl] at hc
          cases hc
        · refine ⟨_, x, .present hw hv ht, hx, ?_⟩
          conv => lhs; rw [hs, hcolon, hs', htype, hwords]
          simp only [List.append_assoc, List.cons_append]
      · cases h
    · cases h
  · obtain rfl := Option.some.inj h
    exact ⟨[], w, .absent, hw, hs⟩

end Tokens

section Lines

variable {line name r : Text} {length : Nat} {d : Declaration}

/-- The tail of a declaration line opens braces, with members in them, or holds nothing but a comment. -/
theorem Declaration.ofTail?_eq_some (h : ofTail? name length r = some d) :
    (∃ s body, r = '{' :: s ∧ inlineBody? s = some body ∧ d = ⟨name, some ⟨body, length - byteLength s⟩⟩) ∨
      isTrailing r = true ∧ d = ⟨name, none⟩ := by
  unfold ofTail? at h
  split at h
  · rename_i s
    obtain ⟨body, hbody, rfl⟩ := Option.map_eq_some_iff.mp h
    exact Or.inl ⟨s, body, rfl, hbody, rfl⟩
  · split at h
    · rename_i hr
      exact Or.inr ⟨hr, (Option.some.inj h).symm⟩
    · cases h

/-- A tail tells nothing of the name. -/
theorem Declaration.name_of_ofTail? (h : ofTail? name length r = some d) : d.name = name := by
  rcases ofTail?_eq_some h with ⟨s, body, -, -, rfl⟩ | ⟨-, rfl⟩
  · rfl
  · rfl

/-- A line that declares an enum starts with a head, and what stands behind the head tells where members are. -/
theorem exists_head_of_ofLine? (h : Declaration.ofLine? line = some d) :
    ∃ head w r, Head d.name head ∧ Blanks w ∧ line = head ++ (w ++ r) ∧
      Declaration.ofTail? d.name (byteLength line) r = some d := by
  obtain ⟨x, hx, hline⟩ := exists_blanks line
  rw [Declaration.ofLine?_eq] at h
  obtain ⟨s, hs, h⟩ := Option.bind_eq_some_iff.mp h
  obtain ⟨⟨name, t⟩, hname, h⟩ := Option.bind_eq_some_iff.mp h
  obtain ⟨r, hr, htail⟩ := Option.bind_eq_some_iff.mp h
  obtain ⟨q, v, hq, hv, hne, hn, rfl⟩ := exists_qualifier_of_declaredName? hname
  obtain ⟨u, w, hu, hw, rfl⟩ := exists_underlying_of_skipUnderlying? hr
  rw [eq_append_of_keyword? hs] at hline
  obtain rfl := Declaration.name_of_ofTail? htail
  refine ⟨_, w, r, .mk hx hq hv hne hn hu, hw, ?_, htail⟩
  rw [hline]
  simp only [List.append_assoc]

/-- The name of a declared enum is a name. -/
theorem enumName_of_ofLine? (h : Declaration.ofLine? line = some d) : EnumName d.name := by
  obtain ⟨head, -, -, hhead, -, -, -⟩ := exists_head_of_ofLine? h
  cases hhead with
  | mk _ _ _ _ hname _ => exact hname

/-- The text in front of the last pair of slashes stands at the beginning. -/
theorem beforeLastSlashes?_isPrefix {s t : Text} (h : beforeLastSlashes? s = some t) : t <+: s := by
  induction s generalizing t with
  | nil => cases h
  | cons c s ih =>
    unfold beforeLastSlashes? at h
    split at h
    · rename_i before hbefore
      obtain rfl := Option.some.inj h
      exact List.cons_prefix_cons.mpr ⟨rfl, ih hbefore⟩
    · split at h
      · obtain rfl := Option.some.inj h
        exact List.nil_prefix
      · cases h

/-- The text that holds members stands directly behind the opening brace. -/
theorem inlineBody?_isPrefix {s body : Text} (h : inlineBody? s = some body) : body <+: s := by
  unfold inlineBody? at h
  split at h
  · obtain rfl := Option.some.inj h
    exact List.takeWhile_prefix _
  · split at h
    · obtain rfl := Option.some.inj h
      exact List.takeWhile_prefix _
    · obtain ⟨before, hbefore, h⟩ := Option.bind_eq_some_iff.mp h
      obtain ⟨-, -, h⟩ := Option.bind_eq_some_iff.mp h
      obtain rfl := Option.some.inj h
      exact (beforeLastSlashes?_isPrefix hbefore).trans (List.takeWhile_prefix _)

end Lines

/-! ## Groups -/

/-- The texts between the commas behind the opening brace. -/
def Declaration.pieces (d : Declaration) : List Text :=
  match d.body with
  | some body => body.text.splitOn ','
  | none => []

/-- The texts that may declare a member: the pieces on the declaration line, then the other lines. -/
theorem Group.map_text_candidates (g : Group) (d : Declaration) :
    (g.candidates d).map (·.text) = d.pieces ++ g.body.map (·.text) := by
  unfold Group.candidates Declaration.pieces
  cases d.body with
  | none => rfl
  | some body => simp [Excerpt.pieces, Excerpt.map_text_place, Function.comp_def]

/-- A group whose first line declares an enum is an enumeration, with a member for each text that declares one. -/
theorem Enumeration.ofGroup_eq_ok {g : Group} {d : Declaration} (h : Declaration.ofLine? g.declaration.text = some d) :
    ∃ e, Enumeration.ofGroup g = .ok e ∧ e.name = d.name ∧ e.span = g.span ∧
      e.memberNames = (d.pieces ++ g.body.map (·.text)).filterMap memberName? := by
  refine ⟨⟨d.name, (g.candidates d).filterMap enumerator?, g.span⟩, ?_, rfl, rfl, ?_⟩
  · simp only [Enumeration.ofGroup, h]
  · rw [← Group.map_text_candidates, ← map_text_filterMap_enumerator?, Enumeration.memberNames]

namespace Enumeration

variable {g : Group} {e : Enumeration} {src : Text}

/-- An enumeration is what its group declares. -/
theorem ofGroup_inv (h : ofGroup g = .ok e) :
    ∃ d, Declaration.ofLine? g.declaration.text = some d ∧
      e = ⟨d.name, (g.candidates d).filterMap enumerator?, g.span⟩ := by
  unfold ofGroup at h
  split at h
  · rename_i d hd
    exact ⟨d, hd, (Except.ok.inj h).symm⟩
  · cases h

/-- Every enumeration of a source is read off a group of it. -/
theorem exists_group_of_mem (h : e ∈ (Listing.ofSource src).enumerations) :
    ∃ g ∈ groups src, ofGroup g = .ok e := by
  obtain ⟨r, hr, he⟩ := List.mem_filterMap.mp h
  obtain ⟨g, hg, rfl⟩ := List.mem_map.mp hr
  refine ⟨g, hg, ?_⟩
  cases hgroup : ofGroup g with
  | ok e' =>
    rw [hgroup] at he
    rw [Option.some.inj he]
  | error fault =>
    rw [hgroup] at he
    cases he

/-- The name of the enum and the names of its members are names. -/
def Named (e : Enumeration) : Prop := EnumName e.name ∧ ∀ m ∈ e.memberNames, MemberName m

/-- What is read from a source has names. -/
theorem named_of_mem (h : e ∈ (Listing.ofSource src).enumerations) : e.Named := by
  obtain ⟨g, -, hg⟩ := exists_group_of_mem h
  obtain ⟨d, hd, rfl⟩ := ofGroup_inv hg
  refine ⟨enumName_of_ofLine? hd, ?_⟩
  intro m hm
  obtain ⟨x, hx, rfl⟩ := List.mem_map.mp hm
  obtain ⟨c, -, hc⟩ := List.mem_filterMap.mp hx
  obtain ⟨-, -, -, hname, -, -⟩ := enumerator?_eq_some hc
  exact hname

end Enumeration

end EnumStrings
