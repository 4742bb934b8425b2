import TaskStatus.Proofs.ChangeFrame
import TaskStatus.Proofs.ExitStatus
import TaskStatus.Proofs.WaybarOutput

/-!
# What is stored on disks can be told

Diagnostics break a run down if the time of the backup has no timestamp. A file can only get such a
time where its volume stores one. A disk does not (`Volume.datable_disk`), and so it is an invariant
of all changes that the volumes of a tree store none and its files have none (`Dated`): a time that is
given is replaced by one that the volume stores, and a move keeps the times that are there.

So on disks one way to break down is left, whatever a session writes and touches, with diagnostics
and without (`Setting.run_eq_broken_iff_of_dated`). It is the memory that stores times in 64 bits.
-/

namespace TaskStatus

/-! ### Volumes -/

namespace Volume

/-- All times that a volume stores have a timestamp. -/
def Datable (v : Volume) : Prop := ∀ m, ¬ (v.keep m).OutOfRange

/-- It is enough that the ends of the range have one. -/
theorem datable_of_ends {v : Volume} (hearliest : ¬ (Instant.atSecond v.earliest).OutOfRange)
    (hlatest : ¬ (Instant.atSecond v.latest).OutOfRange) : v.Datable := by
  intro m
  rw [keep]
  split
  · exact hearliest
  · next hlow =>
    split
    · exact hlatest
    · next hhigh =>
      -- between two seconds that have a timestamp every second has one
      rintro (h | h)
      · exact hearliest (Or.inl (Int.lt_trans (Int.not_le.1 hlow) h))
      · exact hlatest (Or.inr (Int.lt_trans h (Int.not_le.1 hhigh)))

theorem datable_disk : disk.Datable := datable_of_ends (by decide) (by decide)

end Volume

/-! ### The invariant -/

namespace FileTree

/-- All files of a tree have times with a timestamp, and its volumes store no others. -/
structure Dated (t : FileTree) : Prop where
  /-- The files. -/
  nodes : ∀ e ∈ t.nodes, ∀ m ∈ e.2.modified?, ¬ m.OutOfRange
  /-- The volumes, besides the disk of the root. -/
  volumes : ∀ e ∈ t.volumes, e.2.Datable

variable {t : FileTree} {p : Place}

/-- What is stored at a place has a timestamp. -/
theorem Dated.not_outOfRange_kept (h : t.Dated) (p : Place) (m : Instant) :
    ¬ (t.kept p m).OutOfRange := by
  rw [kept, volume]
  rcases hlookup : t.volumes.lookup (t.mountPoint p) with - | v
  · exact Volume.datable_disk m
  · obtain ⟨before, behind, hvolumes, -⟩ := List.lookup_eq_some_iff.1 hlookup
    refine h.volumes (t.mountPoint p, v) ?_ m
    rw [hvolumes]
    exact List.mem_append_right _ List.mem_cons_self

theorem Dated.insert (h : t.Dated) {n : Node} (hn : ∀ m ∈ n.modified?, ¬ m.OutOfRange) :
    (t.insert p n).Dated := by
  refine ⟨fun e he ↦ ?_, h.volumes⟩
  rcases List.mem_cons.1 he with rfl | he
  · exact hn
  · exact h.nodes e (List.mem_filter.1 he).1

/-- What has no time can be put anywhere. -/
theorem Dated.insert_of_modified?_eq_none (h : t.Dated) {n : Node} (hn : n.modified? = none) :
    (t.insert p n).Dated :=
  h.insert fun m hm ↦ absurd (hn.symm.trans hm) (Option.some_ne_none m).symm

theorem Dated.remove (h : t.Dated) (p : Place) : (t.remove p).Dated :=
  ⟨fun e he ↦ h.nodes e (List.mem_filter.1 he).1, h.volumes⟩

theorem Dated.move (h : t.Dated) (source target : Place) : (t.move source target).Dated := by
  refine ⟨fun e he ↦ ?_, fun e he ↦ ?_⟩
  · obtain ⟨e', he', rfl⟩ := List.mem_map.1 he
    exact (h.remove target).nodes e' he'
  · obtain ⟨e', he', rfl⟩ := List.mem_map.1 he
    exact h.volumes e' he'

theorem Dated.ensureDirectories (h : t.Dated) (start : Place) (steps : List Path.Step) :
    (t.ensureDirectories start steps).Dated := by
  rw [FileTree.ensureDirectories]
  generalize List.range steps.length = is
  induction is generalizing t with
  | nil => exact h
  | cons i is ih =>
    have hstep : (t.ensureDirectory start (steps.take (i + 1))).Dated := by
      rcases ensureDirectory_cases t start (steps.take (i + 1)) with heq | ⟨p, -, heq⟩
      · rw [heq]
        exact h
      · rw [heq]
        exact h.insert_of_modified?_eq_none rfl
    exact ih hstep

/-- A file that is put at a place has the time that is stored there. -/
theorem Dated.insert_kept (h : t.Dated) {n : Node} {m : Instant}
    (hn : n.modified? = some (t.kept p m)) : (t.insert p n).Dated := by
  refine h.insert fun m' hm' ↦ ?_
  obtain rfl : t.kept p m = m' := Option.some.inj (hn.symm.trans hm')
  exact h.not_outOfRange_kept p m

theorem Dated.writeAt (h : t.Dated) (p : Place) (content : Bytes) (modified : Instant) :
    (t.writeAt p content modified).Dated := by
  rw [FileTree.writeAt]
  split
  · exact h.insert_kept rfl
  · exact h.insert_kept rfl
  · exact h

/-- **Every change keeps the invariant**, whatever time it gives. -/
theorem Dated.apply (h : t.Dated) (c : Change) : (t.apply c).Dated := by
  cases c with
  | write path content modified =>
    have hdirs := h.ensureDirectories (startOf t.workingDirectory path) path.steps.dropLast
    rw [FileTree.apply]
    split
    · exact hdirs.writeAt _ content modified
    · exact hdirs
  | touch path modified =>
    rw [FileTree.apply]
    split
    · exact h.insert_kept rfl
    · exact h.insert_kept rfl
    · exact h
  | makeDirectory path => exact h.ensureDirectories _ _
  | link path target =>
    rw [FileTree.apply]
    split
    · split
      · exact h.insert_of_modified?_eq_none rfl
      · exact h
    · exact h
  | rename source target =>
    rw [FileTree.apply]
    split
    · exact h
    · split
      · exact h
      · split
        · exact h
        · split
          · exact h
          · exact h.move _ _
  | remove path =>
    rw [FileTree.apply]
    split
    · split
      · exact h
      · exact h.remove _
    · exact h

/-- So does every session. -/
theorem Dated.applyAll (h : t.Dated) (changes : List Change) : (t.applyAll changes).Dated := by
  induction changes generalizing t with
  | nil => exact h
  | cons c cs ih => exact ih (h.apply c)

theorem Dated.timely (h : t.Dated) : t.Timely := timely_of_nodes h.nodes

end FileTree

/-! ### Runs -/

namespace Setting

/-- **On disks one way to break down is left**: after every session over a tree whose files have
times with a timestamp and whose volumes store no others, and with all arguments, environments and
outputs, a run ends well unless the arguments are lost. In particular no diagnostics break it
down. -/
theorem run_eq_broken_iff_of_dated {t : FileTree} (h : t.Dated) (changes : List Change) (s : Setting)
    (hs : s.files = (t.applyAll changes).fileSystem) (args : List Bytes) :
    s.run args = .broken ↔ Lost args := by
  rw [s.run_eq_broken_iff]
  refine or_iff_left ?_
  rintro ⟨o, -, huntellable⟩
  exact (h.applyAll changes).timely.not_untellable s hs o huntellable

end Setting

/-- The tree that is empty, with nothing on it but the disk of the root. -/
example : FileTree.Dated { FileTree.empty with volumes := [] } := ⟨by decide +kernel, nofun⟩

end TaskStatus
