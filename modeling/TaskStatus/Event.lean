import TaskStatus.Backup.Lookup
import TaskStatus.Instant.Rfc3339
import TaskStatus.Task.Status

/-!
# Diagnostics

What the program tells on standard error. The events of a look-up are told only on demand;
that the status cannot be written is told always.
-/

namespace TaskStatus

/-- Something worth telling. -/
inductive Event where
  /-- Backups are looked for in a directory. -/
  | usingDirectory (dir : Path)
  /-- No directory is known. -/
  | noDirectory
  /-- A backup was chosen; its time is told as a timestamp. -/
  | selected (path : Path) (modified : String)
  /-- A directory has no backup. -/
  | noBackups (dir : Path)
  /-- The look-up failed. -/
  | lookupFailed (e : LookupError)
  /-- The chosen backup gives no task. -/
  | unusable (path : Path) (e : CurrentTask.FileError)
  /-- The status could not be written. -/
  | writeFailed (e : IoError)
  deriving DecidableEq

namespace Event

/-- The line that tells an event, behind its time: a level, a message and named values. -/
def line : Event → String
  | .usingDirectory dir => s!"DEBUG using backup directory dir={dir.display}"
  | .noDirectory => "DEBUG unable to resolve home directory; reporting idle"
  | .selected path modified =>
    s!"DEBUG selected latest backup path={path.display} modified={modified}"
  | .noBackups dir => s!"DEBUG no backups found dir={dir.display}"
  | .lookupFailed e =>
    s!"DEBUG backup lookup failed; treating as no backup error={e.message}"
  | .unusable path e =>
    s!"DEBUG failed to extract current task path={path.display} error={e.message}"
  | .writeFailed e =>
    s!" WARN failed to report status: failed to write status: {e.message}"

/-- What is told about the outcome of a look-up in a directory; none if a backup was chosen
whose time has no timestamp. -/
def ofLookup? (dir : Path) : Except LookupError (Option Backup) → Option Event
  | .error e => some (.lookupFailed e)
  | .ok none => some (.noBackups dir)
  | .ok (some b) => b.modified.rfc3339?.map (.selected b.path)

/-- What is told about reading the backup that was chosen. -/
def ofReading (fs : FileSystem) : Option Backup → List Event
  | none => []
  | some b =>
    match CurrentTask.ofFile fs b.path with
    | .ok _ => []
    | .error e => [.unusable b.path e]

/-- What is told about finding the current status; none if something of it cannot be
written down. -/
def ofStatus? (fs : FileSystem) : Option Path → Option (List Event)
  | none => some [.noDirectory]
  | some dir =>
    (ofLookup? dir (Backup.find fs dir)).map fun e ↦
      [.usingDirectory dir, e] ++ ofReading fs (Backup.locate fs dir)

end Event

end TaskStatus
