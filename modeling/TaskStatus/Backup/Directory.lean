import TaskStatus.Path.Basic
import TaskStatus.Text

/-!
# The directory of the backups

A directory given by the user is taken as it is. Otherwise the backups are looked for
below the home directory, which is the first of two environment variables whose value is
text that is not blank; blank characters around that text do not count.
-/

namespace TaskStatus

/-- The two environment variables that may name the home directory, if they are set. -/
structure Environment where
  /-- The value of `HOME`. -/
  home : Option Bytes := none
  /-- The value of `USERPROFILE`. -/
  userProfile : Option Bytes := none
  deriving DecidableEq

/-- The names of the directories that lead from the home directory to the backups. -/
def backupSteps : List Name := [
  ⟨Bytes.ofText ".config", by decide⟩,
  ⟨Bytes.ofText "superProductivity", by decide⟩,
  ⟨Bytes.ofText "backups", by decide⟩]

/-- The directory of the backups below a home directory. -/
def backupsUnder (home : Path) : Path := backupSteps.foldl Path.join home

/-- The path that the value of an environment variable gives, if it is text that is not
blank. -/
def usablePath? (value : Bytes) : Option Path :=
  match value.text? with
  | none => none
  | some s => if trim s = "" then none else some (Path.ofText (trim s))

namespace Environment

/-- The home directory. -/
def homeDirectory (e : Environment) : Option Path :=
  [e.home, e.userProfile].findSome? (·.bind usablePath?)

/-- The directory of the backups below the home directory. -/
def defaultDirectory (e : Environment) : Option Path := e.homeDirectory.map backupsUnder

/-- The directory of the backups, where one that is given counts before the default. -/
def backupDirectory (e : Environment) (given : Option Path) : Option Path :=
  given.or e.defaultDirectory

end Environment

end TaskStatus
