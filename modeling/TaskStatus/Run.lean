import TaskStatus.Backup.Directory
import TaskStatus.BuildStamp
import TaskStatus.CommandLine
import TaskStatus.Event

/-!
# A run of the program

What the program does as a function of what it is given: its arguments, its environment, the
file system, the stamp of its build and whether standard output can be written. It writes one
line with the status, or the help or the version, and its diagnostics.

There are two ways to end without a result: arguments that cannot be understood of which the
first one is not text, and diagnostics that would have to show a time that has no timestamp.
-/

namespace TaskStatus

/-- What a run is given. -/
structure Setting where
  /-- The environment. -/
  environment : Environment
  /-- The file system. -/
  files : FileSystem
  /-- The stamp of the build, which `BuildStamp.script` handed to the build tool. -/
  stamp : String := BuildStamp.noCommit
  /-- Why nothing can be written to standard output, if nothing can. -/
  fault : Option IoError := none

/-- How a run ends. -/
inductive Outcome where
  /-- The program has written to standard output and told what happened. -/
  | finished (output : String) (log : List Event)
  /-- The program broke down before it wrote anything. -/
  | broken
  deriving DecidableEq

namespace Outcome

/-- The exit status. -/
def exitCode : Outcome → Nat
  | .finished _ _ => 0
  | .broken => 101

/-- What is written to standard output. -/
def output : Outcome → String
  | .finished output _ => output
  | .broken => ""

/-- What is told on standard error. -/
def log : Outcome → List Event
  | .finished _ log => log
  | .broken => []

end Outcome

namespace Setting

/-- Prints a text, of which nothing is said if it cannot be written. -/
def print (s : Setting) (text : String) : Outcome :=
  .finished (if s.fault.isSome then "" else text) []

/-- The line with the status. -/
def line (s : Setting) (given : Option Path) (mode : Mode) : String :=
  (currentStatus s.files (s.environment.backupDirectory given)).render mode

/-- What is told about finding the status, if it can be written down. -/
def diagnostics? (s : Setting) (o : Options) : Option (List Event) :=
  if o.verbosity = 0 then some []
  else Event.ofStatus? s.files (s.environment.backupDirectory o.directory)

/-- Reports the status. -/
def report (s : Setting) (o : Options) : Outcome :=
  match s.diagnostics? o with
  | none => .broken
  | some events =>
    match s.fault with
    | none => .finished (s.line o.directory o.mode ++ "\n") events
    | some e => .finished "" (events ++ [.writeFailed e])

/-- Runs the program with some arguments. -/
def run (s : Setting) (args : List Bytes) : Outcome :=
  match Request.parse args with
  | .status o => s.report o
  | .help => s.print helpText
  | .version => s.print (versionText s.stamp)
  | .unclear =>
    match Options.fallback args with
    | some o => s.report o
    | none => .broken

end Setting

end TaskStatus
