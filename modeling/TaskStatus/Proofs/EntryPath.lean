import TaskStatus.Backup.Lookup

/-!
# The path of a directory entry

What a look-up knows about an entry it reads off the path of the entry, which is joined from the
directory and the name. Joining is done on bytes and reading on **components**, so this module
relates the two: the components of `dir.join n` are those of `dir` with `n` behind them, however
the directory is spelled.

Two facts follow that make the spelling of the directory irrelevant: the file name of the path is
the name itself (`fileName?_join`), and whether the path has the extension of a backup is a matter
of the name alone (`isBackup_join_iff`). The latter is stated against `Name.IsBackup`, which says
what the name looks like and mentions neither components nor splitting.
-/

namespace TaskStatus

namespace Path

/-! ### Splitting at the last dot -/

theorem splitLastDot?_eq_none_iff {b : Bytes} : splitLastDot? b = none ↔ dot ∉ b := by
  induction b with
  | nil => simp [splitLastDot?]
  | cons c b ih =>
    rw [splitLastDot?, List.mem_cons, not_or, ← ih]
    rcases splitLastDot? b with - | ⟨stem, ext⟩
    · simp [eq_comm]
    · simp

/-- The dot at which bytes are split is one of them, and the last one. -/
theorem eq_of_splitLastDot?_eq_some {b stem ext : Bytes}
    (h : splitLastDot? b = some (stem, ext)) : b = stem ++ dot :: ext ∧ dot ∉ ext := by
  induction b generalizing stem with
  | nil => simp [splitLastDot?] at h
  | cons c b ih =>
    rw [splitLastDot?] at h
    rcases hb : splitLastDot? b with - | ⟨s, e⟩
    · rw [hb] at h
      obtain ⟨rfl, rfl, rfl⟩ : c = dot ∧ [] = stem ∧ b = ext := by simpa using h
      exact ⟨rfl, splitLastDot?_eq_none_iff.1 hb⟩
    · rw [hb] at h
      obtain ⟨rfl, rfl⟩ : c :: s = stem ∧ e = ext := by simpa using h
      obtain ⟨rfl, he⟩ := ih hb
      exact ⟨rfl, he⟩

theorem splitLastDot?_append_dot {ext : Bytes} (stem : Bytes) (h : dot ∉ ext) :
    splitLastDot? (stem ++ dot :: ext) = some (stem, ext) := by
  induction stem with
  | nil => rw [List.nil_append, splitLastDot?, splitLastDot?_eq_none_iff.2 h]; rfl
  | cons c stem ih => rw [List.cons_append, splitLastDot?, ih]

/-! ### What a joined path consists of -/

theorem Step.ofSegment_bytes (n : Name) : Step.ofSegment n.bytes = .enter n := by
  rw [Step.ofSegment, if_neg n.isName.2.2.1, dif_pos n.isName]

/-- Behind a slash a path goes on with the steps of what follows it. -/
theorem steps_append_slash (a b : Bytes) :
    (Path.mk (a ++ slash :: b)).steps = (Path.mk a).steps ++ (Path.mk b).steps := by
  rw [steps, splitSlashes_append_slash, List.map_append]
  rfl

/-- What a path starts with does not depend on what follows its first slash. -/
theorem start_append_slash (a b : Bytes) :
    (Path.mk (a ++ slash :: b)).start = (Path.mk (a ++ [slash])).start := by
  have habs : (Path.mk (a ++ slash :: b)).isAbsolute = (Path.mk (a ++ [slash])).isAbsolute := by
    cases a <;> rfl
  have hseg : ∀ c, (splitSlashes (a ++ slash :: c)).head? = (splitSlashes a).head? := by
    intro c
    obtain ⟨s, ss, hs⟩ := List.exists_cons_of_ne_nil (splitSlashes_ne_nil a)
    rw [splitSlashes_append_slash, hs]
    rfl
  rw [start, start, habs, hseg b, hseg []]

/-- A slash at the end of a path changes none of its components, unless it is all of it. -/
theorem components_append_singleton_slash {a : Bytes} (h : a ≠ []) :
    (Path.mk (a ++ [slash])).components = (Path.mk a).components := by
  obtain ⟨c, a, rfl⟩ := List.exists_cons_of_ne_nil h
  have hseg : (splitSlashes (c :: a ++ [slash])).head? = (splitSlashes (c :: a)).head? := by
    obtain ⟨s, ss, hs⟩ := List.exists_cons_of_ne_nil (splitSlashes_ne_nil (c :: a))
    rw [splitSlashes_append_slash, hs]
    rfl
  have hstart : (Path.mk (c :: a ++ [slash])).start = (Path.mk (c :: a)).start := by
    rw [start, start, hseg]
    rfl
  rw [components, components, hstart, steps_append_slash, List.filterMap_append]
  exact congrArg _ (List.append_nil _)

/-- The three ways in which a directory and a name are joined: the directory is empty, it ends in
a slash, or it gets one. -/
theorem join_bytes_cases (d : Path) (n : Name) :
    (d.bytes = [] ∧ (d.join n).bytes = n.bytes) ∨
      (∃ a, d.bytes = a ++ [slash] ∧ (d.join n).bytes = a ++ slash :: n.bytes) ∨
      (d.bytes ≠ [] ∧ (d.join n).bytes = d.bytes ++ slash :: n.bytes) := by
  rcases List.eq_nil_or_concat d.bytes with hd | ⟨a, b, hd⟩
  · exact Or.inl ⟨hd, by simp [join, hd]⟩
  · by_cases hb : b = slash
    · exact Or.inr (Or.inl ⟨a, by simp [hd, hb], by simp [join, hd, hb]⟩)
    · exact Or.inr (Or.inr ⟨by simp [hd], by simp [join, hd, hb]⟩)

/-- A name is a path of one step. -/
theorem steps_bytes (n : Name) : (Path.mk n.bytes).steps = [.enter n] := by
  rw [steps, splitSlashes_of_not_mem n.isName.2.2.2, List.map_singleton, Step.ofSegment_bytes]

/-- A name starts neither at the root nor with a single dot. -/
theorem start_bytes (n : Name) : (Path.mk n.bytes).start = [] := by
  have habs : (Path.mk n.bytes).isAbsolute = false := by
    rw [isAbsolute, decide_eq_false_iff_not]
    exact fun hs ↦ n.isName.2.2.2 (List.mem_of_mem_head? hs)
  rw [start, habs, splitSlashes_of_not_mem n.isName.2.2.2]
  simp [n.isName.2.1]

/-- **Joining adds one component**, whatever the directory looks like. -/
theorem components_join (d : Path) (n : Name) :
    (d.join n).components = d.components ++ [.named n] := by
  -- behind a slash only the steps of the name count
  have hback : ∀ a : Bytes, (Path.mk (a ++ slash :: n.bytes)).components =
      (Path.mk (a ++ [slash])).components ++ [.named n] := by
    intro a
    have hstay : (Path.mk (a ++ [slash])).steps = (Path.mk a).steps ++ [.stay] :=
      steps_append_slash a []
    rw [components, components, start_append_slash, steps_append_slash, steps_bytes, hstay,
      List.filterMap_append, List.filterMap_append, List.append_assoc]
    simp [Component.ofStep?]
  rcases join_bytes_cases d n with ⟨hd, hj⟩ | ⟨a, hd, hj⟩ | ⟨hd, hj⟩
  · have hempty : d = Path.mk [] := by cases d; exact congrArg Path.mk hd
    rw [hempty] at hj ⊢
    show (Path.mk (join ⟨[]⟩ n).bytes).components = _
    rw [hj, components, start_bytes, steps_bytes]
    rfl
  · show (Path.mk (d.join n).bytes).components = (Path.mk d.bytes).components ++ _
    rw [hj, hd, hback]
  · show (Path.mk (d.join n).bytes).components = (Path.mk d.bytes).components ++ _
    rw [hj, hback, components_append_singleton_slash hd]

/-- The file name of an entry's path is the name of the entry. -/
theorem fileName?_join (d : Path) (n : Name) : (d.join n).fileName? = some n := by
  rw [fileName?, components_join, List.getLast?_concat]

end Path

/-! ### Names of backups -/

/-- The name of a backup: it ends in a dot and the extension of a backup, and something stands
before that dot. -/
def Name.IsBackup (n : Name) : Prop :=
  ∃ stem, stem ≠ [] ∧ n.bytes = stem ++ dot :: Path.backupExtension

namespace Path

/-- A path that ends in a name has the extension of a backup if the name has it. -/
theorem isBackup_iff_of_fileName? {p : Path} {n : Name} (h : p.fileName? = some n) :
    p.isBackup = true ↔ n.IsBackup := by
  have hext : dot ∉ backupExtension := by decide
  rw [isBackup, decide_eq_true_iff, extension?, h]
  show (splitLastDot? n.bytes).bind _ = _ ↔ _
  constructor
  · intro h
    obtain ⟨⟨stem, ext⟩, hsplit, hif⟩ := Option.bind_eq_some_iff.1 h
    by_cases hne : stem = []
    · rw [hne] at hif
      cases hif
    · obtain rfl : ext = backupExtension := by simpa [hne] using hif
      exact ⟨stem, hne, (eq_of_splitLastDot?_eq_some hsplit).1⟩
  · rintro ⟨stem, hne, hn⟩
    rw [hn, splitLastDot?_append_dot stem hext]
    exact if_neg hne

/-- **The extension of an entry's path is that of its name**, wherever the entry lies. -/
theorem isBackup_join_iff (d : Path) (n : Name) : (d.join n).isBackup = true ↔ n.IsBackup :=
  isBackup_iff_of_fileName? (fileName?_join d n)

/-- Nothing stands before the only dot. -/
example : ¬ (Path.ofText "b/.json").isBackup := by decide

end Path

end TaskStatus
