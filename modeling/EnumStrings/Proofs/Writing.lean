import EnumStrings.Run

/-!
# A generation writes all or nothing

A path is located by following its names through directories (`Directory.locate`), and what is read at a path is the
file at that place (`Directory.read_eq_ok_iff`). A file is written where its path is located, if no directory is there
(`Directory.locate_of_target`). No way through directories leads over such a place, so all paths are located as before
(`Directory.locate_put_iff`), and what is read at them is the new file or what could be read before
(`Directory.read_put_iff`).

A generation into a file reads once and then writes once. So it leaves the directory as it is, or with one file changed,
which holds the text generated from what has been read (`generate_all_or_nothing`).
-/

namespace EnumStrings

/-- What gives a result has given one at every step. -/
theorem bind_eq_ok_iff {ε α β : Type} {x : Except ε α} {f : α → Except ε β} {b : β} :
    x >>= f = .ok b ↔ ∃ a, x = .ok a ∧ f a = .ok b := by
  cases x with
  | error e => exact iff_of_false (by rintro ⟨⟩) (by rintro ⟨_, ⟨⟩, _⟩)
  | ok a => exact ⟨fun h => ⟨a, rfl, h⟩, by rintro ⟨_, ⟨⟩, h⟩; exact h⟩

namespace Directory

/-! ## Places of paths -/

section Paths

variable {d : Directory} {path : Text} {place q : List Text} {name : Text} {content : ByteArray}

/-- The place that a path leads to. -/
def locate (d : Directory) (path : Text) : Except AccessFault (List Text) := do
  checkPath path
  d.follow (start path) (path.splitOn '/')

/-- A name leads on from a directory, if it is not too long. -/
theorem step_eq_ok_iff : d.step place name = .ok q ↔
    d.node? place = some .directory ∧ byteLength name ≤ 255 ∧ move place name = q := by
  unfold step
  split
  · rename_i h
    rw [h]
    by_cases hlong : 255 < byteLength name
    · simp [hlong, Nat.not_le_of_gt hlong]
    · simp [hlong, Nat.le_of_not_gt hlong]
  · rename_i h
    simp [h]
  · rename_i h
    simp [h]

theorem follow_cons_eq_ok_iff {names : List Text} : d.follow place (name :: names) = .ok q ↔
    ∃ next, d.step place name = .ok next ∧ d.follow next names = .ok q := by
  rw [follow]
  exact bind_eq_ok_iff

/-- The names behind others lead on from the place that these lead to. -/
theorem follow_append (d : Directory) (place names others : List Text) :
    d.follow place (names ++ others) = (d.follow place names).bind (d.follow · others) := by
  induction names generalizing place with
  | nil => rfl
  | cons name names ih =>
    rw [List.cons_append, follow, follow]
    cases d.step place name with
    | error fault => rfl
    | ok next => exact ih next

/-- What is read at a path is the file at its place. -/
theorem read_eq_ok_iff : d.read path = .ok content ↔
    ∃ place, d.locate path = .ok place ∧ d.node? place = some (.file content) := by
  constructor
  · intro h
    obtain ⟨_, hcheck, h⟩ := bind_eq_ok_iff.mp h
    obtain ⟨place, hfollow, h⟩ := bind_eq_ok_iff.mp h
    refine ⟨place, bind_eq_ok_iff.mpr ⟨_, hcheck, hfollow⟩, ?_⟩
    split at h
    · rename_i hnode
      rw [hnode, Except.ok.inj h]
    · cases h
    · cases h
  · rintro ⟨place, h, hnode⟩
    obtain ⟨_, hcheck, hfollow⟩ := bind_eq_ok_iff.mp h
    refine bind_eq_ok_iff.mpr ⟨_, hcheck, bind_eq_ok_iff.mpr ⟨place, hfollow, ?_⟩⟩
    rw [hnode]
    rfl

/-- The last name in a path is empty only where the path ends with a slash. -/
theorem getLast?_splitOn (h : (path.splitOn '/').getLast? = some []) : path = [] ∨ path.getLast? = some '/' := by
  induction path with
  | nil => exact Or.inl rfl
  | cons c path ih =>
    obtain ⟨first, others, hsplit⟩ := List.exists_cons_of_ne_nil (List.splitOn_ne_nil '/' path)
    rw [List.splitOn_cons_eq_if_modifyHead, hsplit] at h
    rw [hsplit] at ih
    by_cases hc : c = '/'
    · subst hc
      rw [if_pos (beq_self_eq_true _), List.getLast?_cons_cons] at h
      rcases ih h with rfl | hlast
      · exact Or.inr rfl
      · exact Or.inr (by rw [List.getLast?_cons, hlast]; rfl)
    · rw [if_neg (by simpa using hc), List.modifyHead_cons] at h
      cases others with
      | nil => simp at h
      | cons second others =>
        rw [List.getLast?_cons_cons] at h ih
        rcases ih h with rfl | hlast
        · simp at hsplit
        · exact Or.inr (by rw [List.getLast?_cons, hlast]; rfl)

/-- Without a slash at its end, a path has all its names. -/
theorem namesOf_eq (hne : path ≠ []) (hslash : path.getLast? ≠ some '/') : namesOf path = path.splitOn '/' := by
  have hlast : ∀ name ∈ (path.splitOn '/').reverse.head?, decide (name = []) = false := by
    intro name hname
    rw [List.head?_reverse] at hname
    rw [decide_eq_false_iff_not]
    rintro rfl
    exact (getLast?_splitOn hname).elim hne hslash
  rw [namesOf]
  cases hnames : (path.splitOn '/').reverse with
  | nil => rw [List.reverse_eq_nil_iff.mp hnames]; rfl
  | cons name names =>
    rw [hnames] at hlast
    rw [List.dropWhile_cons_of_neg (by simpa using hlast name rfl), ← hnames, List.reverse_reverse]

/-- A file is written where its path leads, and only if no directory is there. -/
theorem locate_of_target (h : d.target path = .ok place) :
    d.locate path = .ok place ∧ d.node? place ≠ some .directory := by
  unfold target at h
  obtain ⟨_, hcheck, h⟩ := bind_eq_ok_iff.mp h
  obtain ⟨parent, hfollow, h⟩ := bind_eq_ok_iff.mp h
  dsimp only at h
  by_cases hslash : path.getLast? = some '/'
  · rw [if_pos hslash] at h
    obtain ⟨_, -, h⟩ := bind_eq_ok_iff.mp h
    cases h
  · rw [if_neg hslash] at h
    obtain ⟨last, hstep, h⟩ := bind_eq_ok_iff.mp h
    have hne : path ≠ [] := by
      rintro rfl
      cases hcheck
    obtain ⟨names, name, hnames⟩ : ∃ names name, path.splitOn '/' = names ++ [name] :=
      ⟨_, _, (List.dropLast_concat_getLast (List.splitOn_ne_nil '/' path)).symm⟩
    rw [namesOf_eq hne hslash, hnames] at hfollow hstep
    rw [List.dropLast_concat] at hfollow
    rw [List.getLastD_concat] at hstep
    have hlocate : d.locate path = .ok last := by
      refine bind_eq_ok_iff.mpr ⟨_, hcheck, ?_⟩
      rw [hnames, follow_append, hfollow]
      exact follow_cons_eq_ok_iff.mpr ⟨last, hstep, rfl⟩
    split at h
    · cases h
    · rename_i hnode
      obtain rfl := Except.ok.inj h
      exact ⟨hlocate, hnode⟩

end Paths

/-! ## One more file -/

section Writing

variable {d : Directory} {path : Text} {place q r : List Text} {name : Text} {new content : ByteArray}

/-- A place where no directory is lies in the directory, and not above it. -/
theorem isAbove_eq_false (h : d.node? place ≠ some .directory) : isAbove place = false := by
  unfold node? at h
  split at h
  · exact absurd rfl h
  · rename_i habove
    exact Bool.not_eq_true _ ▸ habove

/-- Directories are where they were. -/
theorem node?_put_eq_directory_iff (h : d.node? place ≠ some .directory) :
    (d.put place (.file new)).node? q = some .directory ↔ d.node? q = some .directory := by
  by_cases hq : q = place
  · subst hq
    rw [node?_put_self d _ (isAbove_eq_false h)]
    exact iff_of_false (by simp) h
  · rw [node?_put_of_ne d _ hq]

theorem step_put_iff (h : d.node? place ≠ some .directory) :
    (d.put place (.file new)).step q name = .ok r ↔ d.step q name = .ok r := by
  rw [step_eq_ok_iff, step_eq_ok_iff, node?_put_eq_directory_iff h]

/-- Names lead where they led before. -/
theorem follow_put_iff (h : d.node? place ≠ some .directory) (names : List Text) :
    (d.put place (.file new)).follow q names = .ok r ↔ d.follow q names = .ok r := by
  induction names generalizing q with
  | nil => rfl
  | cons name names ih =>
    rw [follow_cons_eq_ok_iff, follow_cons_eq_ok_iff]
    simp only [step_put_iff h, ih]

theorem locate_put_iff (h : d.node? place ≠ some .directory) :
    (d.put place (.file new)).locate path = .ok q ↔ d.locate path = .ok q := by
  unfold locate
  rw [bind_eq_ok_iff, bind_eq_ok_iff]
  simp only [follow_put_iff h]

/-- The new file is read at each path that leads to it. -/
theorem read_put_self (h : d.node? place ≠ some .directory) (hpath : d.locate path = .ok place) :
    (d.put place (.file new)).read path = .ok new :=
  read_eq_ok_iff.mpr ⟨place, (locate_put_iff h).mpr hpath, node?_put_self d _ (isAbove_eq_false h)⟩

/-- At all other paths the same can be read as before. -/
theorem read_put_iff (h : d.node? place ≠ some .directory) (hpath : d.locate path ≠ .ok place) :
    (d.put place (.file new)).read path = .ok content ↔ d.read path = .ok content := by
  rw [read_eq_ok_iff, read_eq_ok_iff]
  refine exists_congr fun q => ?_
  rw [locate_put_iff h]
  refine and_congr_right fun hq => ?_
  have hne : q ≠ place := by
    rintro rfl
    exact hpath hq
  rw [node?_put_of_ne d _ hne]

end Writing

end Directory

/-! ## Generations -/

section Generations

variable {d : Directory} {r : Request} {path src : Text} {place : List Text} {bytes : ByteArray} {fault : AccessFault}

/-- What comes of a generation into a file, and the directory that it leaves. -/
def Directory.generate (d : Directory) (r : Request) (path : Text) : Outcome Summary × Directory :=
  ((EnumStrings.generate { r with output? := some path } : StateM Directory (Outcome Summary)).run d).run

/-- Nothing is written where no source has been read. -/
theorem generate_of_unread {failure : Failure} (h : Listing.ofFile r.input (d.read r.input) = .error failure) :
    (d.generate r path).1.result = .error failure ∧ (d.generate r path).2 = d := by
  simp [Directory.generate, EnumStrings.generate, load, FileStore.readFile, h]

theorem generate_of_fault (h : d.read r.input = .error fault) :
    (d.generate r path).1.result = .error (.access r.input fault) ∧ (d.generate r path).2 = d :=
  generate_of_unread (by rw [h]; rfl)

theorem generate_of_notText (h : d.read r.input = .ok bytes) (htext : ofBytes? bytes = none) :
    (d.generate r path).1.result = .error (.access r.input .notText) ∧ (d.generate r path).2 = d :=
  generate_of_unread (by simp only [h, Listing.ofFile, htext])

/-- What is read from a file that holds a text. -/
theorem Listing.ofFile_toBytes (input src : Text) : ofFile input (.ok (toBytes src)) = .ok (ofSource src) := by
  simp only [ofFile, ofBytes?_toBytes]

/-- Nothing is written where nothing can be. -/
theorem generate_of_unwritten (h : d.read r.input = .ok (toBytes src)) (htarget : d.target path = .error fault) :
    (d.generate r path).1.result = .error (.access path fault) ∧ (d.generate r path).2 = d := by
  have hwrite : ∀ content, d.write path content = .error fault := by
    intro content
    rw [Directory.write, htarget]
    rfl
  simp [Directory.generate, EnumStrings.generate, load, FileStore.readFile, FileStore.writeFile, h,
    Listing.ofFile_toBytes, hwrite]

/-- A file is written at its place, whatever it holds. -/
theorem write_of_target (h : d.target path = .ok place) (content : ByteArray) :
    d.write path content = .ok (d.put place (.file content)) := by
  rw [Directory.write, h]
  rfl

/-- The generated text is written, whatever groups have been skipped. -/
theorem generate_of_written (h : d.read r.input = .ok (toBytes src)) (htarget : d.target path = .ok place) :
    (d.generate r path).1.result = .ok (Listing.ofSource src).summary ∧
      (d.generate r path).2 =
        d.put place (.file (toBytes (generatedText r.options (Listing.ofSource src).enumerations))) := by
  simp [Directory.generate, EnumStrings.generate, load, FileStore.readFile, FileStore.writeFile, h,
    Listing.ofFile_toBytes, write_of_target htarget]

/-- The input can be read or not, as text or not, and the output can be written or not. -/
theorem access_cases (d : Directory) (input path : Text) :
    (∃ fault, d.read input = .error fault) ∨ (∃ bytes, d.read input = .ok bytes ∧ ofBytes? bytes = none) ∨
      (∃ src fault, d.read input = .ok (toBytes src) ∧ d.target path = .error fault) ∨
        ∃ src place, d.read input = .ok (toBytes src) ∧ d.target path = .ok place := by
  cases d.read input with
  | error fault => exact Or.inl ⟨fault, rfl⟩
  | ok bytes =>
    cases htext : ofBytes? bytes with
    | none => exact Or.inr (Or.inl ⟨bytes, rfl, htext⟩)
    | some src =>
      obtain rfl := eq_toBytes_of_ofBytes? htext
      cases d.target path with
      | error fault => exact Or.inr (Or.inr (Or.inl ⟨src, fault, rfl, rfl⟩))
      | ok place => exact Or.inr (Or.inr (Or.inr ⟨src, place, rfl, rfl⟩))

/-- A generation fails for a file that cannot be used, or it succeeds and a source has been read and a text written. -/
theorem generate_result (d : Directory) (r : Request) (path : Text) :
    (∃ p fault, (d.generate r path).1.result = .error (.access p fault)) ∨
      (∃ summary, (d.generate r path).1.result = .ok summary) ∧
        (∃ src, d.read r.input = .ok (toBytes src)) ∧ ∃ place, d.target path = .ok place := by
  rcases access_cases d r.input path with ⟨fault, h⟩ | ⟨bytes, h, htext⟩ | ⟨src, fault, h, ht⟩ | ⟨src, place, h, ht⟩
  · exact Or.inl ⟨_, _, (generate_of_fault h).1⟩
  · exact Or.inl ⟨_, _, (generate_of_notText h htext).1⟩
  · exact Or.inl ⟨_, _, (generate_of_unwritten h ht).1⟩
  · exact Or.inr ⟨⟨_, (generate_of_written h ht).1⟩, ⟨src, h⟩, place, ht⟩

end Generations

/-- **A generation writes all or nothing**: it fails for a path and leaves the directory as it was, or it writes the
generated text at the output and nothing else. -/
theorem generate_all_or_nothing (d : Directory) (r : Request) (path : Text) :
    (∀ fault, d.read r.input = .error fault →
      (d.generate r path).1.result = .error (.access r.input fault) ∧ (d.generate r path).2 = d) ∧
    (∀ bytes, d.read r.input = .ok bytes → ofBytes? bytes = none →
      (d.generate r path).1.result = .error (.access r.input .notText) ∧ (d.generate r path).2 = d) ∧
    (∀ src fault, d.read r.input = .ok (toBytes src) → d.target path = .error fault →
      (d.generate r path).1.result = .error (.access path fault) ∧ (d.generate r path).2 = d) ∧
    (∀ src place, d.read r.input = .ok (toBytes src) → d.target path = .ok place →
      (d.generate r path).1.result = .ok (Listing.ofSource src).summary ∧
      (d.generate r path).2.read path = .ok (toBytes (generatedText r.options (Listing.ofSource src).enumerations)) ∧
      (∀ p, d.locate p = .ok place → (d.generate r path).2.read p = (d.generate r path).2.read path) ∧
      (∀ p content, d.locate p ≠ .ok place →
        ((d.generate r path).2.read p = .ok content ↔ d.read p = .ok content)) ∧
      ∀ other, other ≠ place → (d.generate r path).2.node? other = d.node? other) ∧
    ((∃ summary, (d.generate r path).1.result = .ok summary) ↔
      (∃ src, d.read r.input = .ok (toBytes src)) ∧ ∃ place, d.target path = .ok place) ∧
    ∀ failure, (d.generate r path).1.result = .error failure → failure.exitCode = 3 := by
  refine ⟨fun _ h => generate_of_fault h, fun _ h htext => generate_of_notText h htext,
    fun _ _ h htarget => generate_of_unwritten h htarget, ?_, ?_, ?_⟩
  · intro src place h htarget
    obtain ⟨hresult, hafter⟩ := generate_of_written h htarget
    obtain ⟨hpath, hplace⟩ := Directory.locate_of_target htarget
    rw [hafter]
    refine ⟨hresult, Directory.read_put_self hplace hpath, ?_, ?_, ?_⟩
    · intro p hp
      rw [Directory.read_put_self hplace hpath, Directory.read_put_self hplace hp]
    · intro p content hp
      exact Directory.read_put_iff hplace hp
    · intro other hother
      exact d.node?_put_of_ne _ hother
  · constructor
    · rintro ⟨summary, hok⟩
      rcases generate_result d r path with ⟨p, fault, herror⟩ | ⟨-, haccess⟩
      · rw [hok] at herror
        cases herror
      · exact haccess
    · rintro ⟨⟨src, h⟩, place, htarget⟩
      exact ⟨_, (generate_of_written h htarget).1⟩
  · intro failure hfailure
    rcases generate_result d r path with ⟨p, fault, herror⟩ | ⟨⟨summary, hok⟩, -⟩
    · rw [herror] at hfailure
      obtain rfl := Except.error.inj hfailure
      rfl
    · rw [hok] at hfailure
      cases hfailure

end EnumStrings
