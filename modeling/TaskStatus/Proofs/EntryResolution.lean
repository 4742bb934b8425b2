import Mathlib.Data.List.Basic
import TaskStatus.Proofs.ChangeFrame
import TaskStatus.Proofs.EntryPath

/-!
# Following the path of a directory entry

The path of an entry is joined from the path of the directory and the name, on bytes. Following it
is following the directory and then entering the name: with or without a slash at its end, the path
of the directory has the same steps but for one that leads nowhere (`Path.steps_join`).

From this come the two directions that a look-up needs. Behind a directory there is the entry
(`resolve_join`), and in front of what the path of an entry leads to there is a directory that has
this entry (`exists_directory_of_resolve_join`). Writing a file by the path of an entry is putting a
node at the place of the entry (`apply_write_join`), because the directories on the way are there.
-/

namespace TaskStatus

namespace Path

variable {d : Path}

/-- **The steps of an entry's path** are those of the directory and then the name, but for a last
step of the directory that leads nowhere. -/
theorem steps_join (hd : d.bytes ≠ []) (n : Name) :
    ∃ xs, (d.join n).steps = xs ++ [.enter n] ∧ (d.steps = xs ∨ d.steps = xs ++ [.stay]) := by
  -- behind a slash there is only the step of the name
  have hslash {a : Bytes} (h : (d.join n).bytes = a ++ slash :: n.bytes) :
      (d.join n).steps = (Path.mk a).steps ++ [.enter n] := by
    rw [← steps_bytes n, ← steps_append_slash, ← h]
  rcases join_bytes_cases d n with ⟨hempty, -⟩ | ⟨a, ha, hj⟩ | ⟨-, hj⟩
  · exact absurd hempty hd
  · refine ⟨_, hslash hj, Or.inr ?_⟩
    have hstay : (Path.mk (a ++ [slash])).steps = (Path.mk a).steps ++ [.stay] :=
      steps_append_slash a []
    rwa [← ha] at hstay
  · exact ⟨_, hslash hj, Or.inl rfl⟩

/-- The path of an entry goes on where the path of the directory ends. -/
theorem exists_join_eq_append (d : Path) (n : Name) :
    ∃ rest, (d.join n).bytes = d.bytes ++ rest :=
  ⟨_, List.append_assoc _ _ _⟩

theorem isAbsolute_join (hd : d.bytes ≠ []) (n : Name) :
    (d.join n).isAbsolute = d.isAbsolute := by
  obtain ⟨rest, hrest⟩ := exists_join_eq_append d n
  rw [isAbsolute, isAbsolute, hrest, List.head?_append_of_ne_nil _ hd]

end Path

namespace FileTree

variable {t : FileTree} {dir : Path} {n : Name} {links : Nat} {p q place : Place} {node : Node}
  {xs ys : List Path.Step}

/-! ### A last step that leads nowhere -/

/-- A step that leads nowhere makes sure that there is a directory. -/
theorem walk_append_stay_eq_ok_iff :
    t.walk .follow links p (xs ++ [.stay]) = .ok q ↔
      t.walk .follow links p xs = .ok q ∧ t.node? q = some .directory := by
  -- from a directory the step leads back to it
  have hstay {left : Nat} {r : Place} (hr : t.node? r = some .directory) :
      t.walk .follow left r [.stay] = .ok r := by
    simp [walk_cons, turn, hr, walk_nil]
  constructor
  · intro h
    obtain ⟨r, left, hxs, hr, hlast⟩ := exists_directory_of_walk_append h (List.cons_ne_nil _ _)
    obtain rfl : r = q := Except.ok.inj ((hstay hr).symm.trans hlast)
    exact ⟨hxs, hr⟩
  · rintro ⟨h, hq⟩
    obtain ⟨left, hleft⟩ := exists_walk_append_of_directory h hq
    rw [hleft, hstay hq]

/-- A directory is reached with such a step as it is without. -/
theorem walk_eq_ok_directory_iff (h : ys = xs ∨ ys = xs ++ [.stay]) :
    (t.walk .follow links p ys = .ok q ∧ t.node? q = some .directory) ↔
      t.walk .follow links p xs = .ok q ∧ t.node? q = some .directory := by
  rcases h with rfl | rfl
  · rfl
  · rw [walk_append_stay_eq_ok_iff, and_assoc, and_self]

/-! ### From a directory to its entries and back -/

theorem ne_nil_of_resolve (h : t.resolve dir = .ok (place, node)) : dir.bytes ≠ [] :=
  (locate_eq_ok_iff.1 (resolve_eq_ok_iff.1 h).1).1.2.1

theorem IsAddress.of_join (h : IsAddress (dir.join n)) (hd : dir.bytes ≠ []) : IsAddress dir := by
  obtain ⟨hzero, -, hlength⟩ := h
  obtain ⟨rest, hrest⟩ := Path.exists_join_eq_append dir n
  rw [hrest] at hzero hlength
  rw [List.length_append] at hlength
  exact ⟨fun hmem ↦ hzero (List.mem_append_left _ hmem), hd, by omega⟩

theorem startOf_join (hd : dir.bytes ≠ []) : startOf p (dir.join n) = startOf p dir := by
  rw [startOf, startOf, Path.isAbsolute_join hd]

/-- **Entering a directory**: the path of an entry means its place, unless a link is there. -/
theorem locate_join (h : t.resolve dir = .ok (place, .directory))
    (haddress : IsAddress (dir.join n)) (hname : n.bytes.length ≤ maxName)
    (hlink : ∀ target, t.node? (n :: place) ≠ some (.link target)) :
    t.locate .follow (dir.join n) = .ok (n :: place) := by
  have hd := ne_nil_of_resolve h
  obtain ⟨hlocate, hplace⟩ := resolve_eq_ok_iff.1 h
  obtain ⟨xs, hjoin, hdir⟩ := Path.steps_join hd n
  have hbase := (walk_eq_ok_directory_iff hdir).1 ⟨(locate_eq_ok_iff.1 hlocate).2, hplace⟩
  obtain ⟨left, hleft⟩ := exists_walk_append_of_directory hbase.1 hplace
  refine locate_eq_ok_iff.2 ⟨haddress, ?_⟩
  rw [startOf_join hd, hjoin, hleft, walk_cons]
  rcases hn : t.node? (n :: place) with - | node
  · simp [turn, hplace, Nat.not_lt.2 hname, hn]
  · cases node with
    | link target => exact absurd hn (hlink target)
    | directory | file | unreadable | device =>
      simp [turn, hplace, Nat.not_lt.2 hname, hn, walk_nil]

/-- The path of an entry that is no link leads to the node of the entry. -/
theorem resolve_join (h : t.resolve dir = .ok (place, .directory))
    (haddress : IsAddress (dir.join n)) (hname : n.bytes.length ≤ maxName)
    (hlink : ∀ target, t.node? (n :: place) ≠ some (.link target))
    (hnode : t.node? (n :: place) = some node) :
    t.resolve (dir.join n) = .ok (n :: place, node) :=
  resolve_eq_ok_iff.2 ⟨locate_join h haddress hname hlink, hnode⟩

/-- **The directory of an entry**: where the path of an entry leads to something, there is the
directory, and it has the entry. -/
theorem exists_directory_of_resolve_join (h : t.resolve (dir.join n) = .ok (q, node))
    (hd : dir.bytes ≠ []) :
    ∃ place, t.resolve dir = .ok (place, .directory) ∧ t.node? (n :: place) ≠ none := by
  obtain ⟨hlocate, hq⟩ := resolve_eq_ok_iff.1 h
  obtain ⟨haddress, hwalk⟩ := locate_eq_ok_iff.1 hlocate
  obtain ⟨xs, hjoin, hdir⟩ := Path.steps_join hd n
  rw [startOf_join hd, hjoin] at hwalk
  obtain ⟨place, left, hxs, hplace, hlast⟩ :=
    exists_directory_of_walk_append hwalk (List.cons_ne_nil _ _)
  have hbase := (walk_eq_ok_directory_iff hdir).2 ⟨hxs, hplace⟩
  refine ⟨place, resolve_eq_ok_iff.2
    ⟨locate_eq_ok_iff.2 ⟨haddress.of_join hd, hbase.1⟩, hplace⟩, fun hnone ↦ ?_⟩
  -- a name that nothing has leads to a place where nothing is
  rw [walk_cons] at hlast
  by_cases hname : maxName < n.bytes.length
  · simp [turn, hplace, hname] at hlast
  · obtain rfl : n :: place = q := by simpa [turn, hplace, hname, hnone] using hlast
    rw [hnone] at hq
    cases hq

/-- What is at the place of an entry is listed. -/
theorem mem_names_of_node?_ne_none (h : t.node? (n :: place) ≠ none) : n ∈ t.names place := by
  obtain ⟨node, hnode⟩ := Option.ne_none_iff_exists'.1 h
  exact mem_names.2 ⟨node, mem_nodes_of_node?_eq_some (List.cons_ne_nil _ _) hnode⟩

/-! ### Writing by the path of an entry -/

/-- Directories are made only where nothing is. -/
theorem ensureDirectories_eq_self {start : Place} {steps : List Path.Step}
    (h : ∀ i q, t.walk .keep maxLinks start (steps.take i) = .ok q → t.node? q ≠ none) :
    t.ensureDirectories start steps = t := by
  refine List.foldl_fixed' (fun i ↦ ?_) _
  rw [ensureDirectory]
  rcases hwalk : t.walk .keep maxLinks start (steps.take (i + 1)) with e | q
  · rfl
  · exact if_neg (h _ q hwalk)

/-- On the way of a directory that is there no directory has to be made. -/
theorem ensureDirectories_join (h : t.resolve dir = .ok (place, .directory)) (n : Name) :
    t.ensureDirectories (startOf t.workingDirectory (dir.join n)) (dir.join n).steps.dropLast =
      t := by
  have hd := ne_nil_of_resolve h
  obtain ⟨xs, hjoin, hdir⟩ := Path.steps_join hd n
  rw [startOf_join hd, hjoin, List.dropLast_concat]
  refine ensureDirectories_eq_self fun i q hwalk ↦ node?_ne_none_of_mem_way h ?_
  -- the steps of the directory begin with the steps that were taken
  obtain ⟨rest, hrest⟩ : ∃ rest, dir.steps = xs.take i ++ rest := by
    rcases hdir with hdir | hdir
    · exact ⟨xs.drop i, by rw [hdir, List.take_append_drop]⟩
    · exact ⟨xs.drop i ++ [.stay], by rw [hdir, ← List.append_assoc, List.take_append_drop]⟩
  rw [way, hrest]
  exact mem_passed_append hwalk rest

section

variable (h : t.resolve dir = .ok (place, .directory)) (haddress : IsAddress (dir.join n))
  (hname : n.bytes.length ≤ maxName)
  (hfree : ∀ node, t.node? (n :: place) = some node → ∃ c m, node = .file c m)
  (content : Bytes) (modified : Instant)

include hfree in
theorem node?_ne_link_of_free (target : Path) : t.node? (n :: place) ≠ some (.link target) := by
  intro hlink
  obtain ⟨c, m, hfile⟩ := hfree _ hlink
  cases hfile

include h haddress hname hfree in
/-- **Writing an entry** of a directory that is there, where there is nothing or a file, puts the
file at the place of the entry, with the time that can be stored there, and does nothing else. -/
theorem apply_write_join :
    t.apply (.write (dir.join n) content modified) =
      t.insert (n :: place) (.file content (t.kept (n :: place) modified)) := by
  simp only [apply, ensureDirectories_join h n,
    locate_join h haddress hname (node?_ne_link_of_free hfree), writeAt]
  rcases hn : t.node? (n :: place) with - | node
  · rfl
  · obtain ⟨c, m, rfl⟩ := hfree node hn
    rfl

include h hfree in
/-- The directory of an entry is not reached through the entry. -/
theorem notMem_way_of_free : n :: place ∉ t.way dir := by
  intro hmem
  rcases eq_or_passable_of_mem_way h hmem with heq | hdir | ⟨target, hlink⟩
  · exact List.cons_ne_self n place heq
  · obtain ⟨c, m, hfile⟩ := hfree _ hdir
    cases hfile
  · exact node?_ne_link_of_free hfree target hlink

include h haddress hname hfree in
/-- What is written by the path of an entry is what the path leads to. -/
theorem resolve_join_apply_write :
    (t.apply (.write (dir.join n) content modified)).resolve (dir.join n) =
      .ok (n :: place, .file content (t.kept (n :: place) modified)) := by
  rw [apply_write_join h haddress hname hfree]
  generalize t.kept (n :: place) modified = stored
  have hagree := agree_insert (notMem_way_of_free h hfree) (.file content stored)
  have hnode : (t.insert (n :: place) (.file content stored)).node? (n :: place) =
      some (.file content stored) := node?_insert_self t _ (List.cons_ne_nil _ _)
  refine resolve_join (hagree.resolve_eq.trans h) haddress hname (fun target ↦ ?_) hnode
  rw [hnode]
  exact nofun

end

end FileTree

end TaskStatus
