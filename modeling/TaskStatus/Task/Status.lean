import TaskStatus.Backup.Lookup
import TaskStatus.Task.Extract

/-!
# The current status

The current task of the latest backup in a directory. A directory that is not known, cannot
be listed or has no backup means that nothing was tracked; a backup that cannot be read or
understood is reported in the title.
-/

namespace TaskStatus

namespace CurrentTask

/-- Why a file gives no task. -/
inductive FileError where
  /-- The file cannot be read. -/
  | unreadable (e : IoError)
  /-- Its text gives no task. -/
  | text (e : TextError)
  deriving DecidableEq, Repr

/-- The words for a file that gives no task. -/
def FileError.message : FileError → String
  | .unreadable e => e.message
  | .text e => e.message

/-- The current task of the text that some bytes spell. -/
def ofBytes (content : Bytes) : Except FileError CurrentTask :=
  match content.text? with
  | none => .error (.unreadable .notText)
  | some text => (parse text).mapError .text

/-- The current task of a file. -/
def ofFile (fs : FileSystem) (path : Path) : Except FileError CurrentTask :=
  match fs.read path with
  | .error e => .error (.unreadable e)
  | .ok content => ofBytes content

/-- A task, or the reason why there is none in its title. -/
def report : Except FileError CurrentTask → CurrentTask
  | .ok t => t
  | .error e => ofMessage e.message

/-- The current task of a file, if there is one. -/
def read (fs : FileSystem) : Option Path → CurrentTask
  | none => idle
  | some path => report (ofFile fs path)

end CurrentTask

/-- The current task of the latest backup in a directory. -/
def currentStatus (fs : FileSystem) (dir : Option Path) : CurrentTask :=
  CurrentTask.read fs ((dir.bind (Backup.locate fs)).map Backup.path)

end TaskStatus
