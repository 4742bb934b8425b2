import TaskStatus.Backup.Directory
import TaskStatus.Proofs.EntryPath
import TaskStatus.Proofs.TextBytes
import TaskStatus.Proofs.TrimmedText

/-!
# The directory that the environment leads to

Without a directory of the user's own, the backups lie below the home directory, which two
environment variables may name. What a variable names is said here of its bytes alone (`NamesPath`):
they spell a text that is not blank all over, and the path is this text from its first to its last
character that is not blank.

* a variable that spells such a text names one path, any other names none
  (`usablePath?_eq_some_iff`, `usablePath?_eq_none_iff`);
* going down to the backups adds three names to the components of a home directory, however that is
  spelled (`components_backupsUnder`).
-/

namespace TaskStatus

/-! ### What a variable names -/

/-- A value **is usable**: it spells a text that is not blank all over. -/
def Usable (value : Bytes) : Prop :=
  ∃ text : String, value = Bytes.ofText text ∧ ¬ Blank text.toList

/-- **The path that a value names**: the value spells a text, and the path is all of it but the
blank characters at its two ends. -/
def NamesPath (value : Bytes) (p : Path) : Prop :=
  ∃ before text after : String, value = Bytes.ofText (before ++ text ++ after) ∧
    Blank before.toList ∧ Blank after.toList ∧ text ≠ "" ∧ Trimmed text.toList ∧
    p = Path.ofText text

theorem usablePath?_ofText (text : String) :
    usablePath? (Bytes.ofText text) =
      if trim text = "" then none else some (Path.ofText (trim text)) := by
  simp only [usablePath?, Bytes.text?_ofText]

theorem usablePath?_eq_none_iff {value : Bytes} : usablePath? value = none ↔ ¬ Usable value := by
  constructor
  · rintro h ⟨text, rfl, hblank⟩
    rw [usablePath?_ofText, if_neg (mt trim_eq_empty_iff.1 hblank)] at h
    cases h
  · intro h
    rcases htext : value.text? with - | text
    · rw [usablePath?, htext]
    · obtain rfl := Bytes.text?_eq_some_iff.1 htext
      have hblank : Blank text.toList := Classical.not_not.1 fun hne ↦ h ⟨text, rfl, hne⟩
      rw [usablePath?_ofText, if_pos (trim_eq_empty_iff.2 hblank)]

/-- **A value gives the path that it names**, so it names one at most. -/
theorem usablePath?_eq_some_iff {value : Bytes} {p : Path} :
    usablePath? value = some p ↔ NamesPath value p := by
  constructor
  · intro h
    rcases htext : value.text? with - | text
    · rw [usablePath?, htext] at h
      cases h
    · obtain rfl := Bytes.text?_eq_some_iff.1 htext
      rw [usablePath?_ofText] at h
      split at h
      · cases h
      · next hne =>
        obtain ⟨htrimmed, before, after, hbefore, hafter, heq⟩ :=
          trim_eq_iff.1 (rfl : trim text = _)
        exact ⟨before, trim text, after, congrArg Bytes.ofText heq, hbefore, hafter, hne, htrimmed,
          (Option.some.inj h).symm⟩
  · rintro ⟨before, text, after, rfl, hbefore, hafter, hne, htrimmed, rfl⟩
    have htrim : trim (before ++ text ++ after) = text :=
      trim_eq_iff.2 ⟨htrimmed, before, after, hbefore, hafter, rfl⟩
    rw [usablePath?_ofText, htrim, if_neg hne]

/-! ### Going down to the backups -/

/-- **Three names are added** to the components of a home directory, whatever bytes it is spelled
with. -/
theorem components_backupsUnder (home : Path) :
    (backupsUnder home).components = home.components ++
      [.named ⟨Bytes.ofText ".config", by decide⟩,
        .named ⟨Bytes.ofText "superProductivity", by decide⟩,
        .named ⟨Bytes.ofText "backups", by decide⟩] := by
  simp only [backupsUnder, backupSteps, List.foldl_cons, List.foldl_nil, Path.components_join,
    List.append_assoc, List.cons_append, List.nil_append]

namespace Environment

/-- The home directory is what the first variable names whose value is usable. -/
theorem homeDirectory_eq (e : Environment) :
    e.homeDirectory = (e.home.bind usablePath?).or (e.userProfile.bind usablePath?) := by
  rw [homeDirectory, List.findSome?_cons, List.findSome?_singleton]
  cases e.home.bind usablePath? <;> rfl

theorem bind_usablePath?_eq_none_iff {value? : Option Bytes} :
    value?.bind usablePath? = none ↔ ∀ value ∈ value?, ¬ Usable value := by
  cases value? with
  | none => simp
  | some value => simp [usablePath?_eq_none_iff]

theorem bind_usablePath?_eq_some_iff {value? : Option Bytes} {p : Path} :
    value?.bind usablePath? = some p ↔ ∃ value ∈ value?, NamesPath value p := by
  cases value? with
  | none => simp
  | some value => simp [usablePath?_eq_some_iff]

/-- **Where the backups are looked for**, for every environment:

* a directory that is given is taken as it is;
* without one they lie below the path that the first usable one of the two variables names, `HOME`
  before `USERPROFILE`;
* no directory is known exactly if neither of them is usable;
* the components of the directory are those of the home directory and three names behind them. -/
theorem backupDirectory_exact (e : Environment) :
    (∀ dir, e.backupDirectory (some dir) = some dir) ∧
    (∀ dir, e.backupDirectory none = some dir ↔ ∃ home, dir = backupsUnder home ∧
      ((∃ value ∈ e.home, NamesPath value home) ∨
        (∀ value ∈ e.home, ¬ Usable value) ∧ ∃ value ∈ e.userProfile, NamesPath value home)) ∧
    (e.backupDirectory none = none ↔
      (∀ value ∈ e.home, ¬ Usable value) ∧ ∀ value ∈ e.userProfile, ¬ Usable value) ∧
    ∀ home : Path, (backupsUnder home).components = home.components ++
      [.named ⟨Bytes.ofText ".config", by decide⟩,
        .named ⟨Bytes.ofText "superProductivity", by decide⟩,
        .named ⟨Bytes.ofText "backups", by decide⟩] := by
  have hdefault : e.backupDirectory none = e.homeDirectory.map backupsUnder := rfl
  refine ⟨fun dir ↦ rfl, fun dir ↦ ?_, ?_, components_backupsUnder⟩
  · rw [hdefault, Option.map_eq_some_iff]
    refine exists_congr fun home ↦ ?_
    rw [homeDirectory_eq, Option.or_eq_some_iff, bind_usablePath?_eq_some_iff,
      bind_usablePath?_eq_none_iff, bind_usablePath?_eq_some_iff, and_comm]
    exact and_congr_left' eq_comm
  · rw [hdefault, Option.map_eq_none_iff, homeDirectory_eq, Option.or_eq_none_iff,
      bind_usablePath?_eq_none_iff, bind_usablePath?_eq_none_iff]

/-- White space of one and of three bytes around the path, and a first variable that is not text. -/
example :
    (Environment.mk (some [0xFF]) (some (Bytes.ofText " \u2003/h/. \n"))).backupDirectory none =
      some (Path.ofText "/h/./.config/superProductivity/backups") := by decide

end Environment

end TaskStatus
