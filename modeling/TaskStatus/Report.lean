import TaskStatus.Json.Compact
import TaskStatus.Task.Extract

/-!
# The status line

The current task is written as a line of text or as the JSON object that a Waybar module
reads: the members `text`, `tooltip` and `class`, in this order.
-/

namespace TaskStatus

/-- How the status is written. -/
inductive Mode where
  /-- As text. -/
  | text
  /-- As an object for Waybar. -/
  | waybar
  deriving DecidableEq, Repr

/-- The class that styles a Waybar module. -/
inductive StatusClass where
  /-- A task was tracked. -/
  | active
  /-- Nothing was tracked. -/
  | idle
  deriving DecidableEq, Repr

/-- The name of a class. -/
def StatusClass.name : StatusClass → String
  | .active => "active"
  | .idle => "idle"

/-- What a Waybar module shows. -/
structure WaybarStatus where
  /-- What is on the bar. -/
  text : String
  /-- What is shown over it. -/
  tooltip : String
  /-- How it is styled. -/
  styling : StatusClass
  deriving DecidableEq, Repr

namespace CurrentTask

/-- The line of text for a task. -/
def statusText (t : CurrentTask) : String := "SP: " ++ t.title

/-- What a Waybar module shows for a task. -/
def waybarStatus (t : CurrentTask) : WaybarStatus where
  text := t.statusText
  tooltip := "Current Task: " ++ t.title ++ "\n(Source: Last Backup)"
  styling := if t.isActive then .active else .idle

end CurrentTask

namespace WaybarStatus

/-- The members of the object, in the order in which they are written. -/
def members (w : WaybarStatus) : List (String × Json) := [
  ("text", .string w.text),
  ("tooltip", .string w.tooltip),
  ("class", .string w.styling.name)]

/-- The object for Waybar. -/
def line (w : WaybarStatus) : String :=
  String.ofList ('{' :: Json.memberChars w.members ++ ['}'])

end WaybarStatus

/-- The line for a task. -/
def CurrentTask.render (t : CurrentTask) : Mode → String
  | .text => t.statusText
  | .waybar => t.waybarStatus.line

end TaskStatus
