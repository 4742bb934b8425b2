import TaskStatus.Proofs.LossyText
import TaskStatus.Proofs.PathWalk
import TaskStatus.Proofs.StatusLine

/-!
# What can be shown on one line

The diagnostics show paths, times and the words for failures. None of them has a control character
as long as the names have none that paths are made of: those in the environment, in the arguments
and in the file tree (`Environment.Legible`, `FileTree.Legible`).

A path is legible because joining and trimming add nothing (`Environment.Legible.backupDirectory`,
`Path.legible_join`). The words for a failure are those of the operating system, which a file tree
takes from a fixed list (`FileTree.printable_of_resolve_eq_error`, by induction along the way of the
path), or those of the reader of JSON, which repeat nothing of the text that is read.
-/

namespace TaskStatus

/-! ### Paths -/

namespace Path

variable {p : Path}

theorem printable_display (h : p.bytes.Legible) : Json.Printable p.display.toList := by
  rw [display, Bytes.lossy, String.toList_ofList]
  exact h.printable_lossyChars

theorem legible_join {n : Name} (hp : p.bytes.Legible) (hn : n.bytes.Legible) :
    (p.join n).bytes.Legible := by
  have hslash : Bytes.Legible
      (if p.bytes = [] ∨ p.bytes.getLast? = some slash then [] else [slash]) := by
    split <;> decide
  exact Bytes.legible_append.2 ⟨Bytes.legible_append.2 ⟨hp, hslash⟩, hn⟩

theorem legible_foldl_join {ns : List Name} (hp : p.bytes.Legible)
    (hns : ∀ n ∈ ns, n.bytes.Legible) : (ns.foldl join p).bytes.Legible := by
  induction ns generalizing p with
  | nil => exact hp
  | cons n ns ih =>
    obtain ⟨hn, hns⟩ := List.forall_mem_cons.1 hns
    exact ih (legible_join hp hn) hns

end Path

theorem legible_backupsUnder {home : Path} (h : home.bytes.Legible) :
    (backupsUnder home).bytes.Legible :=
  Path.legible_foldl_join h (by decide)

/-- Trimming takes characters away and adds none. -/
theorem trimChars_sublist (cs : List Char) : (trimChars cs).Sublist cs := by
  have hback := (List.dropWhile_sublist (l := (cs.dropWhile isBlank).reverse) isBlank).reverse
  rw [List.reverse_reverse] at hback
  exact hback.trans (List.dropWhile_sublist isBlank)

theorem legible_of_usablePath?_eq_some {value : Bytes} {p : Path} (h : value.Legible)
    (hp : usablePath? value = some p) : p.bytes.Legible := by
  rcases htext : value.text? with - | s
  · rw [usablePath?, htext] at hp
    cases hp
  · obtain rfl := Bytes.text?_eq_some_iff.1 htext
    simp only [usablePath?, htext] at hp
    split at hp
    · cases hp
    · cases hp
      refine Bytes.legible_ofText_iff.2 ?_
      rw [trim, String.toList_ofList]
      exact (Bytes.legible_ofText_iff.1 h).sublist (trimChars_sublist s.toList)

/-- The values of the variables have no control characters. -/
structure Environment.Legible (e : Environment) : Prop where
  /-- That of `HOME` has none. -/
  home : ∀ value ∈ e.home, value.Legible
  /-- That of `USERPROFILE` has none. -/
  userProfile : ∀ value ∈ e.userProfile, value.Legible

/-- **The directory of the backups is legible** if the values are that it comes from. -/
theorem Environment.Legible.backupDirectory {e : Environment} (h : e.Legible) {given : Option Path}
    (hgiven : ∀ d ∈ given, d.bytes.Legible) {dir : Path}
    (hdir : e.backupDirectory given = some dir) : dir.bytes.Legible := by
  rcases given with - | d
  · obtain ⟨home, hhome, rfl⟩ := Option.map_eq_some_iff.1 hdir
    obtain ⟨value?, hmem, hvalue⟩ := List.exists_of_findSome?_eq_some hhome
    obtain ⟨value, rfl, hpath⟩ := Option.bind_eq_some_iff.1 hvalue
    refine legible_backupsUnder (legible_of_usablePath?_eq_some ?_ hpath)
    rcases List.mem_pair.1 hmem with heq | heq
    · exact h.home value heq.symm
    · exact h.userProfile value heq.symm
  · obtain rfl : d = dir := Option.some.inj hdir
    exact hgiven d rfl

/-! ### Failures of a file tree -/

namespace FileTree

/-- The names of a file tree have no control characters. -/
def Legible (t : FileTree) : Prop := ∀ e ∈ t.nodes, ∀ n ∈ e.1, n.bytes.Legible

/-- The names in a directory are names of the tree. -/
theorem Legible.of_mem_list {t : FileTree} (h : t.Legible) {dir : Path} {ns : List Name}
    (hlist : t.list dir = .ok ns) {n : Name} (hn : n ∈ ns) : n.bytes.Legible := by
  rw [list] at hlist
  split at hlist
  · cases hlist
  · obtain rfl := Except.ok.inj hlist
    obtain ⟨node, hmem⟩ := mem_names.1 hn
    exact h _ hmem n List.mem_cons_self
  · cases hlist

variable {t : FileTree} {e : IoError}

/-- One step fails in words of the list. -/
theorem printable_of_turn_eq_stop {p : Place} {s : Path.Step} (h : t.turn p s = .stop e) :
    Json.Printable e.message.toList := by
  by_cases hp : t.node? p = some .directory
  · rcases s with - | - | n
    · simp [turn, hp] at h
    · simp [turn, hp] at h
    · by_cases hlength : maxName < n.bytes.length
      · obtain rfl : IoError.nameTooLong = e := by simpa [turn, hp, hlength] using h
        decide
      · rcases hn : t.node? (n :: p) with - | node
        · simp [turn, hp, hlength, hn] at h
        · cases node <;> simp [turn, hp, hlength, hn] at h
  · obtain rfl : IoError.notADirectory = e := Turn.stop.inj ((turn_of_ne_directory hp).symm.trans h)
    decide

/-- **The way of a path fails in words of the list**, wherever it ends. -/
theorem printable_of_walk_eq_error {last : Last} (links : Nat) (p : Place) (xs : List Path.Step) :
    t.walk last links p xs = .error e → Json.Printable e.message.toList := by
  induction links, p, xs using walk_induction with
  | nil links p =>
    rw [walk_nil]
    exact nofun
  | cons links p s xs ih ihlink =>
    rw [walk_cons]
    rcases hturn : t.turn p s with e' | q | ⟨q, target⟩ | q
    · rintro ⟨⟩
      exact printable_of_turn_eq_stop hturn
    · show (if _ then _ else _) = _ → _
      split
      · exact nofun
      · rintro ⟨⟩
        decide
    · show (if _ then _ else _) = _ → _
      split
      · exact nofun
      · split
        · rintro ⟨⟩
          decide
        · rcases links with - | left
          · rintro ⟨⟩
            decide
          · exact ihlink left rfl _ _
    · exact ih q

theorem printable_of_resolve_eq_error {path : Path} (h : t.resolve path = .error e) :
    Json.Printable e.message.toList := by
  rw [resolve, locate] at h
  split at h
  · next f hlocate =>
    obtain rfl : f = e := Except.error.inj h
    split at hlocate
    · cases hlocate
      decide
    · split at hlocate
      · cases hlocate
        decide
      · split at hlocate
        · cases hlocate
          decide
        · exact printable_of_walk_eq_error _ _ _ hlocate
  · split at h
    · cases h
      decide
    · cases h

/-- **A file tree refuses to list a directory**, or to examine an entry, in words of the list. -/
theorem printable_of_list_eq_error {dir : Path} (h : t.list dir = .error e) :
    Json.Printable e.message.toList := by
  rw [list] at h
  split at h
  · next f hresolve =>
    obtain rfl : f = e := Except.error.inj h
    exact printable_of_resolve_eq_error hresolve
  · cases h
  · cases h
    decide

theorem printable_of_stat_eq_error {path : Path} (h : t.stat path = .error e) :
    Json.Printable e.message.toList := by
  rw [stat] at h
  rcases hresolve : t.resolve path with f | r
  · rw [hresolve] at h
    obtain rfl : f = e := Except.error.inj h
    exact printable_of_resolve_eq_error hresolve
  · rw [hresolve] at h
    cases h

end FileTree

/-! ### The words of the diagnostics -/

theorem LookupError.printable_message_unlistable {dir : Path} {e : IoError}
    (hdir : dir.bytes.Legible) (he : Json.Printable e.message.toList) :
    Json.Printable (unlistable dir e).message.toList := by
  show Json.Printable
    ("Failed to list backup directory " ++ dir.display ++ ": " ++ e.message).toList
  simp only [String.toList_append, Json.printable_append, Path.printable_display hdir, he]
  decide

theorem LookupError.printable_message_unexaminable {entry : Path} {e : IoError}
    (hentry : entry.bytes.Legible) (he : Json.Printable e.message.toList) :
    Json.Printable (unexaminable entry e).message.toList := by
  show Json.Printable ("Failed to read metadata for " ++ entry.display ++ ": " ++ e.message).toList
  simp only [String.toList_append, Json.printable_append, Path.printable_display hentry, he]
  decide

/-- The words for a look-up that failed in a file tree. -/
theorem printable_of_find_eq_error {t : FileTree} (ht : t.Legible) {dir : Path}
    (hdir : dir.bytes.Legible) {e : LookupError} (h : Backup.find t.fileSystem dir = .error e) :
    Json.Printable e.message.toList := by
  rcases hlist : t.fileSystem.list dir with cause | ns
  · rw [Backup.find, hlist] at h
    obtain rfl := Except.error.inj h
    exact LookupError.printable_message_unlistable hdir (FileTree.printable_of_list_eq_error hlist)
  · rcases Backup.find_cases hlist with ⟨n, hn, cause, hobs, hf⟩ | ⟨-, ⟨-, hf⟩ | ⟨n, m, -, hf⟩⟩
    · obtain rfl := Except.error.inj (hf.symm.trans h)
      exact LookupError.printable_message_unexaminable
        (Path.legible_join hdir (ht.of_mem_list hlist hn))
        (FileTree.printable_of_stat_eq_error hobs.2)
    · cases hf.symm.trans h
    · cases hf.symm.trans h

/-- A backup that is found in a file tree is an entry of the directory. -/
theorem legible_path_of_find {t : FileTree} (ht : t.Legible) {dir : Path}
    (hdir : dir.bytes.Legible) {b : Backup} (h : Backup.find t.fileSystem dir = .ok (some b)) :
    b.path.bytes.Legible := by
  obtain ⟨ns, n, m, hlist, hlatest, rfl⟩ := Backup.exists_isLatest_of_find h
  exact Path.legible_join hdir (ht.of_mem_list hlist hlatest.1.1)

/-- The words for content that gives no task. -/
theorem CurrentTask.printable_of_ofBytes_eq_error {content : Bytes} {e : FileError}
    (h : ofBytes content = .error e) : Json.Printable e.message.toList := by
  rcases ofBytes_cases content with ⟨-, ho⟩ | ⟨text, f, -, -, ho⟩ | ⟨text, t, -, -, ho⟩
  · obtain rfl := Except.error.inj (ho.symm.trans h)
    decide
  · obtain rfl := Except.error.inj (ho.symm.trans h)
    exact f.printable_message
  · cases ho.symm.trans h

/-- The words for a backup that is found and gives no task. -/
theorem printable_of_ofFile_eq_error {t : FileTree} {dir : Path} {b : Backup}
    (h : Backup.find t.fileSystem dir = .ok (some b)) {e : CurrentTask.FileError}
    (he : CurrentTask.ofFile t.fileSystem b.path = .error e) : Json.Printable e.message.toList := by
  rcases (selected_iff.2 h).read_cases with ⟨content, hread⟩ | ⟨place, obstacle, -, hread⟩
  · rw [CurrentTask.ofFile_of_read_eq_ok hread] at he
    exact CurrentTask.printable_of_ofBytes_eq_error he
  · rw [CurrentTask.ofFile, show t.fileSystem.read b.path = _ from hread] at he
    obtain rfl := Except.error.inj he
    exact obstacle.printable_message_error

/-! ### Timestamps -/

theorem printable_paddedDigits (width n : Nat) : Json.Printable (paddedDigits width n) := by
  rw [paddedDigits, List.leftpad]
  exact Json.printable_append.2 ⟨Json.printable_replicate _, Json.printable_toDigits n⟩

theorem printable_yearChars (y : Int) : Json.Printable (yearChars y) := by
  have hdigits := printable_paddedDigits 4 y.natAbs
  simp only [yearChars]
  split
  · exact Json.printable_cons.2 ⟨by decide, hdigits⟩
  · split
    · exact Json.printable_cons.2 ⟨by decide, hdigits⟩
    · exact hdigits

theorem printable_fractionChars (nanos : Nat) : Json.Printable (fractionChars nanos) := by
  rw [fractionChars]
  split
  · exact Json.printable_nil
  · split
    · exact Json.printable_cons.2 ⟨by decide, printable_paddedDigits _ _⟩
    · split <;> exact Json.printable_cons.2 ⟨by decide, printable_paddedDigits _ _⟩

theorem Instant.printable_of_rfc3339?_eq_some {m : Instant} {time : String}
    (h : m.rfc3339? = some time) : Json.Printable time.toList := by
  rw [rfc3339?] at h
  split at h
  · obtain rfl := Option.some.inj h
    rw [String.toList_ofList]
    simp only [timestampChars, Json.printable_append, Json.printable_cons, printable_yearChars,
      printable_paddedDigits, printable_fractionChars]
    decide
  · cases h

end TaskStatus
