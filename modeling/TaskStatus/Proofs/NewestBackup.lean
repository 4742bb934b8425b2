import TaskStatus.Proofs.CurrentStatus
import TaskStatus.Proofs.EntryResolution

/-!
# The newest backup wins

A backup that is written with the greatest time and name decides the status, and it goes on to do so
whatever else happens to the tree. What has to stay is little, and it is put down as an invariant of
single trees (`Leads`): the path of the backup leads to a file with its content and its time, and no
entry of the directory is in the way of a look-up or newer.

The invariant holds after the backup was written (`leads_apply_write`), it is all that the selection
looks at (`Leads.selected`), and a session keeps it as long as every single change does
(`Along.applyAll`). Whether a change does is a matter of its frame: it is enough to look at the
entries that the change acts on and that are named like backups (`Harmless`,
`Leads.apply_of_harmless`).
-/

namespace TaskStatus

namespace FileTree

/-! ### Sessions -/

/-- Every change of a session has a property in the tree that it meets. -/
def Along (P : FileTree → Change → Prop) : FileTree → List Change → Prop
  | _, [] => True
  | t, c :: cs => P t c ∧ Along P (t.apply c) cs

/-- **Sessions keep what their changes keep.** -/
theorem Along.applyAll {P : FileTree → Change → Prop} {I : FileTree → Prop}
    (hstep : ∀ t c, I t → P t c → I (t.apply c)) {t : FileTree} {changes : List Change} (h : I t)
    (hP : t.Along P changes) : I (t.applyAll changes) := by
  induction changes generalizing t with
  | nil => exact h
  | cons c cs ih => exact ih (hstep t c h hP.1) hP.2

/-! ### Files behind paths -/

/-- The content and the time of the file that a path leads to, if it can be read. -/
def fileAt? (t : FileTree) (path : Path) : Option (Bytes × Instant) :=
  match t.resolve path with
  | .ok (_, .file content modified) => some (content, modified)
  | _ => none

theorem fileAt?_eq_some_iff {t : FileTree} {path : Path} {content : Bytes} {modified : Instant} :
    t.fileAt? path = some (content, modified) ↔
      ∃ place, t.resolve path = .ok (place, .file content modified) := by
  rw [fileAt?]
  rcases t.resolve path with e | ⟨place, node⟩
  · simp
  · cases node <;> simp

/-- A change that stays clear of the path of a file leaves the file alone. -/
theorem fileAt?_apply_of_clear {t : FileTree} {c : Change} {path : Path}
    (hfile : (t.fileAt? path).isSome) (hclear : t.Clear c path) :
    (t.apply c).fileAt? path = t.fileAt? path := by
  obtain ⟨⟨content, modified⟩, hsome⟩ := Option.isSome_iff_exists.1 hfile
  obtain ⟨place, hresolve⟩ := fileAt?_eq_some_iff.1 hsome
  rw [fileAt?, fileAt?, (agree_apply hresolve hclear).resolve_eq]

/-- So it does with whatever a path leads to. -/
theorem stat_apply_of_clear {t : FileTree} {c : Change} {path : Path} {m : Metadata}
    (hstat : t.stat path = .ok m) (hclear : t.Clear c path) :
    (t.apply c).stat path = .ok m := by
  obtain ⟨⟨place, node⟩, hresolve⟩ : ∃ r, t.resolve path = .ok r := by
    rcases h : t.resolve path with e | r
    · rw [stat, h] at hstat
      cases hstat
    · exact ⟨r, rfl⟩
  rw [← hstat, stat, stat, (agree_apply hresolve hclear).resolve_eq]

end FileTree

/-! ### Leading a directory -/

namespace Backup

/-- No entry of a directory that is named like a backup is in the way of a look-up, and none that is
a regular file comes behind an entry with its time. -/
def Newest (t : FileTree) (dir : Path) (n : Name) (time : Instant) : Prop :=
  ∀ ns, t.list dir = .ok ns → ∀ m ∈ ns,
    (∀ e, ¬ Obstructs t.fileSystem dir m e) ∧
      ∀ s, Eligible t.fileSystem dir m s → ¬ Precedes n time m s

/-- An entry **leads** its directory: its path leads to a file with some content and time, and it is
the newest backup. -/
structure Leads (t : FileTree) (dir : Path) (n : Name) (content : Bytes) (time : Instant) :
    Prop where
  /-- The file. -/
  file : t.fileAt? (dir.join n) = some (content, time)
  /-- No other backup is newer. -/
  newest : Newest t dir n time

/-- A change is **harmless** to a backup: it acts neither on the way of its path nor above it, and
every entry of the directory that is named like a backup afterwards was there and is not acted on
either, or is no regular file, or comes before the backup. -/
def Harmless (t : FileTree) (c : Change) (dir : Path) (n : Name) (time : Instant) : Prop :=
  t.Clear c (dir.join n) ∧
    ∀ ns ns', t.list dir = .ok ns → (t.apply c).list dir = .ok ns' → ∀ m ∈ ns', m.IsBackup →
      (m ∈ ns ∧ t.Clear c (dir.join m)) ∨ (t.apply c).stat (dir.join m) = .ok .other ∨
        ∃ s, (t.apply c).stat (dir.join m) = .ok (.file s) ∧ Precedes m s n time

variable {t : FileTree} {dir : Path} {n : Name} {content : Bytes} {time : Instant}

/-- What a look-up finds is the newest. -/
theorem newest_of_find (h : find t.fileSystem dir = .ok (some ⟨dir.join n, time⟩)) :
    Newest t dir n time := by
  intro ns hns m hm
  obtain ⟨hno, ⟨hnone, -⟩ | ⟨k, s, hlatest, hk⟩⟩ := (find_eq_ok_iff hns).1 h
  · cases hnone
  · obtain ⟨hpath, htime⟩ : dir.join n = dir.join k ∧ time = s := by simpa using hk
    -- the name can be read off the path
    have hname := congrArg Path.fileName? hpath
    rw [Path.fileName?_join, Path.fileName?_join] at hname
    obtain rfl : n = k := Option.some.inj hname
    subst htime
    refine ⟨hno m hm, fun s hs ↦ ?_⟩
    rcases hlatest.2 m hm s hs with ⟨rfl, rfl⟩ | hbefore
    · exact fun hself ↦ hself.asymm hself
    · exact hbefore.asymm

/-- The entry that leads is listed. -/
theorem Leads.exists_list (h : Leads t dir n content time) (hd : dir.bytes ≠ []) :
    ∃ ns, t.list dir = .ok ns ∧ n ∈ ns := by
  obtain ⟨q, hfile⟩ := FileTree.fileAt?_eq_some_iff.1 h.file
  obtain ⟨place, hdir, hentry⟩ := FileTree.exists_directory_of_resolve_join hfile hd
  exact ⟨_, by rw [FileTree.list, hdir], FileTree.mem_names_of_node?_ne_none hentry⟩

/-- **The selection looks at nothing else**: the entry that leads is selected, with its content. -/
theorem Leads.selected (h : Leads t dir n content time) (hn : n.IsBackup) (hd : dir.bytes ≠ []) :
    Selected t.fileSystem dir ⟨dir.join n, time⟩ ∧ t.read (dir.join n) = .ok content := by
  obtain ⟨q, hfile⟩ := FileTree.fileAt?_eq_some_iff.1 h.file
  obtain ⟨ns, hlist, hentry⟩ := h.exists_list hd
  have hnewest := h.newest ns hlist
  have heligible : Eligible t.fileSystem dir n time :=
    ⟨hn, FileTree.stat_eq_file_iff.2 ⟨q, _, hfile, rfl⟩⟩
  have hlatest : IsLatest t.fileSystem dir ns n time :=
    ⟨⟨hentry, heligible⟩, fun m hm s hs ↦
      eq_or_precedes_of_not_precedes ((hnewest m hm).2 s hs)⟩
  exact ⟨⟨ns, n, time, hlist, fun m hm ↦ (hnewest m hm).1, hlatest, rfl⟩,
    FileTree.read_of_resolve_eq_file hfile⟩

/-- **A change keeps the lead** if it leaves the file alone and nothing newer behind. -/
theorem Leads.apply {c : Change} (h : Leads t dir n content time)
    (hfile : (t.apply c).fileAt? (dir.join n) = t.fileAt? (dir.join n))
    (hnewest : Newest (t.apply c) dir n time) : Leads (t.apply c) dir n content time :=
  ⟨hfile.trans h.file, hnewest⟩

/-- A harmless change leaves nothing newer behind: what it does not act on is what it was. -/
theorem Leads.apply_of_harmless {c : Change} (h : Leads t dir n content time)
    (hd : dir.bytes ≠ []) (hc : Harmless t c dir n time) :
    Leads (t.apply c) dir n content time := by
  refine h.apply (FileTree.fileAt?_apply_of_clear (by simp [h.file]) hc.1) fun ns' hns' m hm ↦ ?_
  obtain ⟨ns, hns, -⟩ := h.exists_list hd
  by_cases hbackup : m.IsBackup
  · obtain ⟨hmem, hclear⟩ | hother | ⟨s, hfile, hbefore⟩ := hc.2 ns ns' hns hns' m hm hbackup
    · obtain ⟨hno, hnewest⟩ := h.newest ns hns m hmem
      rcases hstat : t.stat (dir.join m) with e | x
      · exact absurd ⟨hbackup, hstat⟩ (hno e)
      · have hafter := FileTree.stat_apply_of_clear hstat hclear
        refine ⟨fun e he ↦ ?_, fun s hs ↦ hnewest s ⟨hbackup, ?_⟩⟩
        · cases hafter.symm.trans he.2
        · exact hstat.trans (hafter.symm.trans hs.2)
    · refine ⟨fun e he ↦ ?_, fun s hs ↦ ?_⟩
      · cases hother.symm.trans he.2
      · cases hother.symm.trans hs.2
    · have heligible : Eligible (t.apply c).fileSystem dir m s := ⟨hbackup, hfile⟩
      refine ⟨heligible.not_obstructs, fun s' hs' ↦ ?_⟩
      rw [hs'.unique heligible]
      exact hbefore.asymm
  · exact ⟨fun e he ↦ hbackup he.1, fun s hs ↦ absurd hs.1 hbackup⟩

/-- A backup that was written leads if it is the newest. -/
theorem leads_apply_write {place : Place} (hdir : t.resolve dir = .ok (place, .directory))
    (haddress : FileTree.IsAddress (dir.join n)) (hname : n.bytes.length ≤ FileTree.maxName)
    (hfree : ∀ node, t.node? (n :: place) = some node → ∃ c m, node = .file c m)
    (hnewest : Newest (t.apply (.write (dir.join n) content time)) dir n
      (t.kept (n :: place) time)) :
    Leads (t.apply (.write (dir.join n) content time)) dir n content (t.kept (n :: place) time) :=
  ⟨FileTree.fileAt?_eq_some_iff.2
    ⟨_, FileTree.resolve_join_apply_write hdir haddress hname hfree content time⟩, hnewest⟩

end Backup

open Backup FileTree

/-- **The newest backup wins, and nothing else matters**, in every tree. A backup is written as an
entry of a directory that is there, in place of nothing or of a file, within the limits of the
system, and with the time that was stored, which is the given one within the range of the volume,
it is the newest one afterwards. Then

* the status is what its content gives;
* it stays so along every session that leaves the path, the content and the time of the backup alone
  and never leaves an entry that is in the way of a look-up or newer;
* it stays so along every session of harmless changes, which may add, edit, rename and remove what
  comes before the backup, is not named like one, or is no regular file. -/
theorem currentStatus_of_newest (t : FileTree) (dir : Path) (place : Place) (n : Name)
    (content : Bytes) (time : Instant) (hdir : t.resolve dir = .ok (place, .directory))
    (hbackup : n.IsBackup) (haddress : IsAddress (dir.join n))
    (hname : n.bytes.length ≤ maxName)
    (hfree : ∀ node, t.node? (n :: place) = some node → ∃ c m, node = .file c m)
    (hnewest : Newest (t.apply (.write (dir.join n) content time)) dir n
      (t.kept (n :: place) time)) :
    let stored := t.kept (n :: place) time
    let written := t.apply (.write (dir.join n) content time)
    ((t.volume (n :: place)).Storable time → stored = time) ∧
    currentStatus written.fileSystem (some dir) = CurrentTask.report (CurrentTask.ofBytes content) ∧
    (∀ changes, written.Along (fun u c ↦
        (u.apply c).fileAt? (dir.join n) = u.fileAt? (dir.join n) ∧
          Newest (u.apply c) dir n stored) changes →
      currentStatus (written.applyAll changes).fileSystem (some dir) =
        CurrentTask.report (CurrentTask.ofBytes content)) ∧
    ∀ changes, written.Along (fun u c ↦ Harmless u c dir n stored) changes →
      currentStatus (written.applyAll changes).fileSystem (some dir) =
        CurrentTask.report (CurrentTask.ofBytes content) := by
  intro stored written
  have hlead : Leads written dir n content stored :=
    leads_apply_write hdir haddress hname hfree hnewest
  have hd := ne_nil_of_resolve hdir
  -- the status is read off the invariant, at the end of a session as at its beginning
  have hstatus {u : FileTree} (hu : Leads u dir n content stored) :
      currentStatus u.fileSystem (some dir) = CurrentTask.report (CurrentTask.ofBytes content) := by
    obtain ⟨hsel, hread⟩ := hu.selected hbackup hd
    rw [currentStatus_of_selected hsel, CurrentTask.ofFile_of_read_eq_ok hread]
  refine ⟨Volume.keep_of_storable, hstatus hlead, fun changes hchanges ↦ ?_,
    fun changes hchanges ↦ ?_⟩
  · exact hstatus (Along.applyAll (I := fun u ↦ Leads u dir n content stored)
      (fun u c hu hc ↦ hu.apply hc.1 hc.2) hlead hchanges)
  · exact hstatus (Along.applyAll (I := fun u ↦ Leads u dir n content stored)
      (fun u c hu hc ↦ hu.apply_of_harmless hd hc) hlead hchanges)

/-- Next to an older backup a newer one is written. Then older ones come, are touched, moved and
removed, a directory is named like a backup, and a later file is not: the status stays. To remove
the older backup is harmless. -/
theorem currentStatus_of_newest_session :
    let t := FileTree.empty.apply (.write (Path.ofText "b/z.json") [] ⟨1, 0, by decide⟩)
    let content := Bytes.ofText <| "\x7b\"task\":\x7b\"currentTaskId\":\"i\"," ++
      "\"entities\":\x7b\"i\":\x7b\"title\":\"T\"\x7d\x7d\x7d\x7d"
    let written := t.apply (.write (Path.ofText "b/a.json") content ⟨1, 2, by decide⟩)
    let session : List Change := [
      .touch (Path.ofText "b/z.json") ⟨1, 1, by decide⟩,
      .write (Path.ofText "b/y.json") [] ⟨0, 0, by decide⟩,
      .rename (Path.ofText "b/y.json") (Path.ofText "b/z.json"),
      .makeDirectory (Path.ofText "b/x.json"),
      .write (Path.ofText "b/notes.txt") [] ⟨3, 0, by decide⟩,
      .remove (Path.ofText "b/z.json")]
    currentStatus written.fileSystem (some (Path.ofText "b")) = ⟨"T", some "i"⟩ ∧
      currentStatus (written.applyAll session).fileSystem (some (Path.ofText "b")) =
        ⟨"T", some "i"⟩ ∧
      currentStatus (written.applyAll [.remove (Path.ofText "b/z.json")]).fileSystem
        (some (Path.ofText "b")) = ⟨"T", some "i"⟩ := by
  intro t content written session
  let n : Name := ⟨Bytes.ofText "a.json", by decide⟩
  let place : Place := [⟨Bytes.ofText "b", by decide⟩, ⟨Bytes.ofText "work", by decide⟩]
  have hnone : t.node? (n :: place) = none := by decide +kernel
  have hcontent : CurrentTask.report (CurrentTask.ofBytes content) = ⟨"T", some "i"⟩ := by
    decide +kernel
  have h := currentStatus_of_newest t (Path.ofText "b") place n content ⟨1, 2, by decide⟩
    (by decide +kernel) ⟨Bytes.ofText "a", by decide, by decide⟩ (by decide +kernel)
    (by decide +kernel) (fun node hnode ↦ by rw [hnone] at hnode; cases hnode)
    (newest_of_find (by decide +kernel))
  rw [hcontent] at h
  refine ⟨h.2.1, h.2.2.1 session ?_, h.2.2.2 _ ⟨⟨by decide +kernel, ?_⟩, trivial⟩⟩
  · -- each change leaves the file alone, and the look-up behind it finds the same backup
    refine ⟨⟨?_, newest_of_find ?_⟩, ⟨?_, newest_of_find ?_⟩, ⟨?_, newest_of_find ?_⟩,
      ⟨?_, newest_of_find ?_⟩, ⟨?_, newest_of_find ?_⟩, ⟨?_, newest_of_find ?_⟩, trivial⟩
    all_goals decide +kernel
  · intro ns ns' hns hns' m hm _
    have hbefore : written.list (Path.ofText "b") =
        .ok [n, ⟨Bytes.ofText "z.json", by decide⟩] := by
      decide +kernel
    have hafter : (written.apply (.remove (Path.ofText "b/z.json"))).list (Path.ofText "b") =
        .ok [n] := by
      decide +kernel
    obtain rfl := Except.ok.inj (hns.symm.trans hbefore)
    obtain rfl := Except.ok.inj (hns'.symm.trans hafter)
    obtain rfl := List.mem_singleton.1 hm
    exact Or.inl ⟨List.mem_cons_self, by decide +kernel⟩

end TaskStatus
