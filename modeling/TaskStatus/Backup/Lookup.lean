import TaskStatus.FileSystem
import TaskStatus.Path.Components

/-!
# Backups, and looking for the latest one

A backup is a regular file with the extension `json`. Of two backups the later is the one
modified later, and of two modified at the same instant the one with the greater file name,
by bytes.

To find the latest, all entries of a directory with the extension of a backup are examined.
One that cannot be examined makes the look-up fail, whatever the others are; one that is no
regular file is passed over. The latest of those that are left is the answer.

The look-up depends on the directory and on the order of its entries only through
`candidates`, the backups found among some names.
-/

namespace TaskStatus

namespace Path

/-- The extension of a backup. -/
def backupExtension : Bytes := Bytes.ofText "json"

/-- Whether a path has the extension of a backup. -/
def isBackup (p : Path) : Bool := p.extension? = some backupExtension

end Path

/-- A backup. -/
structure Backup where
  /-- Where the file is. -/
  path : Path
  /-- When the file was last modified. -/
  modified : Instant
  deriving DecidableEq

namespace Backup

/-- The name of the file. -/
def fileName (b : Backup) : Bytes := (b.path.fileName?.map Name.bytes).getD []

/-- Whether one backup is earlier than another. -/
def Earlier (a b : Backup) : Prop :=
  a.modified.sinceEpoch < b.modified.sinceEpoch
    ∨ (a.modified.sinceEpoch = b.modified.sinceEpoch ∧ a.fileName < b.fileName)

instance (a b : Backup) : Decidable (Earlier a b) := by unfold Earlier; infer_instance

/-- The later of a backup that was found before, if one was, and another one. -/
def later (best : Option Backup) (b : Backup) : Option Backup :=
  match best with
  | none => some b
  | some a => if Earlier a b then some b else some a

/-- The latest of some backups. -/
def latest (bs : List Backup) : Option Backup := bs.foldl later none

end Backup

/-! ### The look-up -/

/-- Why a look-up failed. -/
inductive LookupError where
  /-- The directory cannot be listed. -/
  | unlistable (directory : Path) (cause : IoError)
  /-- An entry cannot be examined. -/
  | unexaminable (entry : Path) (cause : IoError)
  deriving DecidableEq

/-- The words for a failed look-up. -/
def LookupError.message : LookupError → String
  | .unlistable dir e => s!"Failed to list backup directory {dir.display}: {e.message}"
  | .unexaminable entry e => s!"Failed to read metadata for {entry.display}: {e.message}"

namespace Backup

/-- The backups among some entries of a directory, in the order of the names. -/
def candidates (fs : FileSystem) (dir : Path) : List Name → Except LookupError (List Backup)
  | [] => .ok []
  | n :: ns =>
    if (dir.join n).isBackup then
      match fs.stat (dir.join n) with
      | .error e => .error (.unexaminable (dir.join n) e)
      | .ok (.file modified) => (candidates fs dir ns).map (⟨dir.join n, modified⟩ :: ·)
      | .ok .other => candidates fs dir ns
    else candidates fs dir ns

/-- The latest backup among some entries of a directory. -/
def latestAmong (fs : FileSystem) (dir : Path) (ns : List Name) :
    Except LookupError (Option Backup) :=
  (candidates fs dir ns).map latest

/-- The latest backup in a directory. -/
def find (fs : FileSystem) (dir : Path) : Except LookupError (Option Backup) :=
  match fs.list dir with
  | .error e => .error (.unlistable dir e)
  | .ok ns => latestAmong fs dir ns

/-- The latest backup in a directory, where a failed look-up finds none. -/
def locate (fs : FileSystem) (dir : Path) : Option Backup :=
  match find fs dir with
  | .ok b => b
  | .error _ => none

end Backup

end TaskStatus
