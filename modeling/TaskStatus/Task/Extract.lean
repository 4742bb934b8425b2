import TaskStatus.Json.Compact
import TaskStatus.Json.Document

/-!
# The current task

What is reported is the title of the task that is being worked on and its key, or a title
that says why there is none.

The task is found in a document. A backup is an object, with its payload either at the top
or as the member `data`. The payload's member `task` holds the key of the current task as
`currentTaskId` and all tasks as `entities`, by their keys. A task without title is called
so; a title that is not a string is shown as compact JSON.

What is missing counts as empty, and an object that is something else is refused, but only
once it is needed: the entities are not looked at unless there is a key to look for.
-/

namespace TaskStatus

/-- What the application was tracking when a backup was written. -/
structure CurrentTask where
  /-- The title. -/
  title : String
  /-- The key of the task. -/
  id : Option String
  deriving DecidableEq, Repr

namespace CurrentTask

/-- Nothing was tracked. -/
def idle : CurrentTask := ⟨"Idle", none⟩

/-- Why it is not known what was tracked. -/
def ofMessage (message : String) : CurrentTask := ⟨"Error: " ++ message, none⟩

/-- Whether a task was tracked. -/
def isActive (t : CurrentTask) : Bool := t.id.isSome

end CurrentTask

/-! ### The parts of a document -/

/-- A part of a backup that has to be an object. -/
inductive Part where
  /-- The whole document. -/
  | document
  /-- The payload. -/
  | data
  /-- The section on tasks. -/
  | task
  /-- The tasks by their keys. -/
  | entities
  /-- The current task. -/
  | entity
  deriving DecidableEq, Repr

/-- What a part of a backup is called. -/
def Part.name : Part → String
  | .document => "backup document"
  | .data => "data"
  | .task => "task"
  | .entities => "task.entities"
  | .entity => "task entity"

/-- The words for a part that is not an object. -/
def Part.message (p : Part) : String := p.name ++ " is not an object"

namespace CurrentTask

/-- The members of a part that has to be an object. -/
def objectAt (p : Part) (v : Json) : Except Part (List (String × Json)) :=
  match v.members? with
  | some ms => .ok ms
  | none => .error p

/-- The members of a member that has to be an object if it is there. -/
def sectionAt (p : Part) (key : String) (ms : List (String × Json)) :
    Except Part (List (String × Json)) :=
  match Json.find? key ms with
  | some v => objectAt p v
  | none => .ok []

/-- The payload of a document. -/
def payload (doc : Json) : Except Part (List (String × Json)) :=
  match objectAt .document doc with
  | .error p => .error p
  | .ok root =>
    match Json.find? "data" root with
    | some v => objectAt .data v
    | none => .ok root

/-- The key of the current task in the section on tasks. -/
def currentKey? (task : List (String × Json)) : Option String :=
  match Json.find? "currentTaskId" task with
  | some (.string s) => if s = "" then none else some s
  | _ => none

/-- The title of a task. -/
def titleOf (entity : List (String × Json)) : String :=
  match Json.find? "title" entity with
  | some (.string s) => s
  | none | some .null => "Unknown Task"
  | some v => v.compact

/-- The task with a key in the section on tasks. -/
def resolve (key : String) (task : List (String × Json)) : Except Part CurrentTask :=
  match sectionAt .entities "entities" task with
  | .error p => .error p
  | .ok entities =>
    match Json.find? key entities with
    | none => .ok idle
    | some v =>
      match objectAt .entity v with
      | .error p => .error p
      | .ok entity => .ok ⟨titleOf entity, some key⟩

/-- The current task of a document. -/
def extract (doc : Json) : Except Part CurrentTask :=
  match payload doc with
  | .error p => .error p
  | .ok ms =>
    match sectionAt .task "task" ms with
    | .error p => .error p
    | .ok task =>
      match currentKey? task with
      | none => .ok idle
      | some key => resolve key task

/-- Why a text gives no task. -/
inductive TextError where
  /-- The text is not JSON. -/
  | malformed (e : Json.SyntaxError)
  /-- A part of the document is not an object. -/
  | misshapen (p : Part)
  deriving DecidableEq, Repr

/-- The words for a text that gives no task. -/
def TextError.message : TextError → String
  | .malformed e => e.message
  | .misshapen p => p.message

/-- The current task of the document that a text is. -/
def parse (text : String) : Except TextError CurrentTask :=
  match Json.parse text with
  | .error e => .error (.malformed e)
  | .ok doc => (extract doc).mapError .misshapen

end CurrentTask

end TaskStatus
