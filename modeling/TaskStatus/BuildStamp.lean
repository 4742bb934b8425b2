import TaskStatus.Text

/-!
# Build stamps

A build is stamped with the abbreviated commit it was made from, followed by `.dirty` if
tracked files had changed since. Both are asked of git, which may be missing, fail, be
killed or print something that is not text: without a commit the stamp is `nogit`, and
without a usable answer about changes the commit counts as clean.

The stamp is made by a script, which prints directives for the build tool and calls git. A
`Script` is a tree: behind a call it branches on what git answers. `Script.run` follows one
branch and says what was tried and printed on it, and how it ended.
-/

namespace TaskStatus

/-- What git is asked. -/
inductive GitQuery where
  /-- The abbreviated commit. -/
  | commit
  /-- The tracked files that have changed. -/
  | changes
  deriving DecidableEq, Repr

/-- The arguments of a call of git, separated by blanks. -/
def GitQuery.arguments : GitQuery → String
  | .commit => "rev-parse --short HEAD"
  | .changes => "status --porcelain --untracked-files=no"

/-- What a run of git gives: what it printed, and its exit status unless it was killed. -/
structure GitAnswer where
  /-- What was printed. -/
  output : Bytes
  /-- The exit status; none if a signal ended the run. -/
  status : Option Int
  deriving DecidableEq, Repr

/-- The answers of git; none where it cannot be started. -/
abbrev Git := GitQuery → Option GitAnswer

/-- Git with two given answers. -/
def Git.answering (commit changes : Option GitAnswer) : Git
  | .commit => commit
  | .changes => changes

namespace BuildStamp

/-- The text that an answer gives, without blank characters around it, if the run succeeded
and printed text. -/
def answerText? : Option GitAnswer → Option String
  | some ⟨output, some 0⟩ => output.text?.map trim
  | _ => none

/-- What a script does. -/
inductive Script where
  /-- Ends with an exit status. -/
  | exit (status : Nat)
  /-- Prints a line and goes on. -/
  | print (line : String) (next : Script)
  /-- Calls git and goes on with its answer. -/
  | call (query : GitQuery) (next : Option GitAnswer → Script)

/-- What has happened when a script has ended. -/
structure Course where
  /-- The calls of git that were tried, in order. -/
  calls : List GitQuery
  /-- What was printed. -/
  output : String
  /-- The exit status. -/
  status : Nat
  deriving DecidableEq, Repr

/-- Runs a script. -/
def Script.run (git : Git) : Script → Course
  | .exit status => ⟨[], "", status⟩
  | .print line next =>
    let course := next.run git
    { course with output := line ++ "\n" ++ course.output }
  | .call query next =>
    let course := (next (git query)).run git
    { course with calls := query :: course.calls }

/-- Calls git and goes on with the text of its answer. -/
def Script.ask (query : GitQuery) (next : Option String → Script) : Script :=
  .call query fun answer ↦ next (answerText? answer)

/-- The stamp of a build without a commit. -/
def noCommit : String := "nogit"

/-- Hands the stamp to the build tool and ends. -/
def Script.announce (stamp : String) : Script :=
  .print ("cargo:rustc-env=SP_STATUS_BUILD=" ++ stamp) (.exit 0)

/-- The script that stamps a build: it says when to stamp again, and asks for changes only
if there is a commit. -/
def script : Script :=
  .print "cargo:rerun-if-changed=.git/HEAD" <|
  .print "cargo:rerun-if-changed=.git/index" <|
  .ask .commit fun
    | none => .announce noCommit
    | some sha => .ask .changes fun changes ↦
        .announce (if changes.getD "" = "" then sha else sha ++ ".dirty")

/-- The directives for the build tool. -/
def directives (git : Git) : String := (script.run git).output

/-- The queries that reach git: one that cannot be started is not reached. -/
def reached (git : Git) : List GitQuery :=
  (script.run git).calls.filter fun q ↦ (git q).isSome

end BuildStamp

end TaskStatus
