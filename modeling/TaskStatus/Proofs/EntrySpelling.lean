import TaskStatus.FileTree.Change
import TaskStatus.Proofs.LatestBackup

/-!
# A look-up does not depend on how the directory is spelled

One directory has many spellings: with slashes at the end, with a single dot behind them, relative
or from the root. The path of an entry begins with the spelling that was given. What a look-up reads
off this path, however, is put at its end by joining and found there again: the name, by which two
backups of one instant are compared, and the extension. So two spellings of a directory lead to the
same entry, as far as its entries can be examined under both of them (`find_alike`), and the answers
differ in how the entry's directory is spelled and in nothing else (`Alike`).
-/

namespace TaskStatus

namespace Backup

/-- Two answers of look-ups are **alike**: both find nothing, or both name the same entry, each
below its own directory. -/
inductive Alike (d d' : Path) :
    Except LookupError (Option Backup) → Except LookupError (Option Backup) → Prop where
  /-- The same entry cannot be examined. -/
  | unexaminable (n : Name) (e : IoError) :
    Alike d d' (.error (.unexaminable (d.join n) e)) (.error (.unexaminable (d'.join n) e))
  /-- There is no backup. -/
  | nothing : Alike d d' (.ok none) (.ok none)
  /-- The same entry is the latest backup. -/
  | found (n : Name) (t : Instant) :
    Alike d d' (.ok (some ⟨d.join n, t⟩)) (.ok (some ⟨d'.join n, t⟩))

section

variable {fs fs' : FileSystem} {d d' : Path} {ns : List Name}

/-- Two spellings of a directory **agree** on some entries: those that are named like backups lead
to the same below both of them. -/
def AgreeOn (fs fs' : FileSystem) (d d' : Path) (ns : List Name) : Prop :=
  ∀ n ∈ ns, n.IsBackup → fs'.stat (d'.join n) = fs.stat (d.join n)

theorem AgreeOn.obstructs_iff (h : AgreeOn fs fs' d d' ns) {n : Name} (hn : n ∈ ns) (e : IoError) :
    Obstructs fs' d' n e ↔ Obstructs fs d n e :=
  and_congr_right fun hname ↦ by rw [h n hn hname]

theorem AgreeOn.eligible_iff (h : AgreeOn fs fs' d d' ns) {n : Name} (hn : n ∈ ns) (t : Instant) :
    Eligible fs' d' n t ↔ Eligible fs d n t :=
  and_congr_right fun hname ↦ by rw [h n hn hname]

theorem AgreeOn.isLatest (h : AgreeOn fs fs' d d' ns) {n : Name} {t : Instant}
    (hlatest : IsLatest fs d ns n t) : IsLatest fs' d' ns n t := by
  obtain ⟨⟨hn, helig⟩, hmax⟩ := hlatest
  refine ⟨⟨hn, (h.eligible_iff hn t).2 helig⟩, fun m hm s hs ↦ ?_⟩
  exact hmax m hm s ((h.eligible_iff hm s).1 hs)

/-- **Two spellings of a directory lead to answers that are alike**, if they agree on its
entries. -/
theorem find_alike (hlist : fs.list d = .ok ns) (hlist' : fs'.list d' = .ok ns)
    (h : AgreeOn fs fs' d d' ns) : Alike d d' (find fs d) (find fs' d') := by
  rcases hfind : find fs d with f | r
  · obtain ⟨before, n, after, e, hns, hbefore, hn, rfl⟩ := (find_eq_error_iff hlist).1 hfind
    have hmem : ∀ m, m ∈ before ∨ m = n → m ∈ ns := by
      intro m hm
      rw [hns, List.mem_append, List.mem_cons]
      exact hm.imp_right .inl
    have hfind' : find fs' d' = .error (.unexaminable (d'.join n) e) := by
      refine (find_eq_error_iff hlist').2 ⟨before, n, after, e, hns, fun m hm e' hobs ↦ ?_, ?_, rfl⟩
      · exact hbefore m hm e' ((h.obstructs_iff (hmem m (.inl hm)) e').1 hobs)
      · exact (h.obstructs_iff (hmem n (.inr rfl)) e).2 hn
    rw [hfind']
    exact .unexaminable n e
  · obtain ⟨hno, hr⟩ := (find_eq_ok_iff hlist).1 hfind
    have hno' : ∀ n ∈ ns, ∀ e, ¬ Obstructs fs' d' n e := fun n hn e hobs ↦
      hno n hn e ((h.obstructs_iff hn e).1 hobs)
    rcases hr with ⟨rfl, hnone⟩ | ⟨n, t, hlatest, rfl⟩
    · have hfind' : find fs' d' = .ok none :=
        (find_eq_ok_iff hlist').2 ⟨hno', .inl ⟨rfl, fun n hn t helig ↦
          hnone n hn t ((h.eligible_iff hn t).1 helig)⟩⟩
      rw [hfind']
      exact .nothing
    · have hfind' : find fs' d' = .ok (some ⟨d'.join n, t⟩) :=
        (find_eq_ok_iff hlist').2 ⟨hno', .inr ⟨n, t, h.isLatest hlatest, rfl⟩⟩
      rw [hfind']
      exact .found n t

end

/-! ### Joining and taking apart -/

/-- A slash is put between a directory and a name, unless nothing or a slash is in front of it. -/
theorem join_bytes (d : Path) (n : Name) :
    (d.bytes = [] → (d.join n).bytes = n.bytes) ∧
      (∀ a, d.bytes = a ++ [slash] → (d.join n).bytes = d.bytes ++ n.bytes) ∧
      (d.bytes ≠ [] → (∀ a, d.bytes ≠ a ++ [slash]) →
        (d.join n).bytes = d.bytes ++ slash :: n.bytes) := by
  rcases Path.join_bytes_cases d n with ⟨hd, hj⟩ | ⟨b, hd, hj⟩ | ⟨hd, hj⟩
  · exact ⟨fun _ ↦ hj, fun a ha ↦ by simp [hd] at ha, fun hne ↦ absurd hd hne⟩
  · refine ⟨fun hempty ↦ by simp [hd] at hempty, fun _ _ ↦ ?_, fun _ hno ↦ absurd hd (hno b)⟩
    rw [hj, hd, List.append_assoc, List.singleton_append]
  · refine ⟨fun hempty ↦ absurd hempty hd, fun a ha ↦ ?_, fun _ _ ↦ hj⟩
    simp [Path.join, ha]

/-- Whether a path is that of a backup is a matter of the name at its end. -/
theorem isBackup_join (d : Path) (n : Name) : (d.join n).isBackup = (Path.mk n.bytes).isBackup := by
  have hbare : (Path.mk n.bytes).isBackup = true ↔ n.IsBackup := Path.isBackup_join_iff ⟨[]⟩ n
  exact Bool.eq_iff_iff.2 ((Path.isBackup_join_iff d n).trans hbare.symm)

/-- **How a directory is spelled does not matter.**

* The path of an entry is the directory and the name, with a slash between them unless the directory
  is empty or ends in one. The name is found again at its end, so the file name of a backup never
  has to be replaced by a default, and the extension of the path is that of the name.
* Two entries of a directory are compared by their times and names alone.
* Where the entries that are named like backups lead to the same below two spellings of a directory,
  the answers of the look-ups are alike. -/
theorem spelling_irrelevant :
    (∀ (d : Path) (n : Name),
      ((d.bytes = [] → (d.join n).bytes = n.bytes) ∧
        (∀ a, d.bytes = a ++ [slash] → (d.join n).bytes = d.bytes ++ n.bytes) ∧
        (d.bytes ≠ [] → (∀ a, d.bytes ≠ a ++ [slash]) →
          (d.join n).bytes = d.bytes ++ slash :: n.bytes)) ∧
      (d.join n).fileName? = some n ∧ (∀ t, fileName ⟨d.join n, t⟩ = n.bytes) ∧
      (d.join n).isBackup = (Path.mk n.bytes).isBackup) ∧
    (∀ (d : Path) (m n : Name) (s t : Instant),
      Earlier ⟨d.join m, s⟩ ⟨d.join n, t⟩ ↔ Precedes m s n t) ∧
    ∀ (fs fs' : FileSystem) (d d' : Path) (ns : List Name), fs.list d = .ok ns →
      fs'.list d' = .ok ns → AgreeOn fs fs' d d' ns → Alike d d' (find fs d) (find fs' d') := by
  refine ⟨fun d n ↦ ?_, fun d m n s t ↦ earlier_join_iff d, fun fs fs' d d' ns ↦ find_alike⟩
  have hname : (d.join n).fileName? = some n := Path.fileName?_join d n
  exact ⟨join_bytes d n, hname, fun t ↦ by rw [fileName, hname]; rfl, isBackup_join d n⟩

/-- A tree with two backups in a directory, which were modified at the same instant. -/
def twinTree (modified : Instant) : FileTree :=
  (FileTree.empty.apply (.write (Path.ofText "b/a.json") [] modified)).apply
    (.write (Path.ofText "b/c.json") [] modified)

/-- The names decide, also where the directory is spelled with slashes and a dot. -/
theorem find_twinTree_respelled :
    let epoch : Instant := ⟨0, 0, by decide⟩
    let fs := (twinTree epoch).fileSystem
    let d := Path.ofText "b"
    let d' := Path.ofText "./b//."
    let a : Name := ⟨Bytes.ofText "a.json", by decide⟩
    let c : Name := ⟨Bytes.ofText "c.json", by decide⟩
    fs.list d = .ok [c, a] ∧ fs.list d' = .ok [c, a] ∧ AgreeOn fs fs d d' [c, a] ∧
      find fs d' = .ok (some ⟨d'.join c, epoch⟩) ∧
      Alike d d' (find fs d) (find fs d') := by
  intro epoch fs d d' a c
  have hlist : fs.list d = .ok [c, a] := by decide +kernel
  have hlist' : fs.list d' = .ok [c, a] := by decide +kernel
  have hagree : AgreeOn fs fs d d' [c, a] := by
    have hstat : ∀ n ∈ [c, a], fs.stat (d'.join n) = fs.stat (d.join n) := by decide +kernel
    exact fun n hn _ ↦ hstat n hn
  refine ⟨hlist, hlist', hagree, by decide +kernel, ?_⟩
  exact spelling_irrelevant.2.2 fs fs d d' [c, a] hlist hlist' hagree

end Backup

end TaskStatus
