import TaskStatus.FileTree.Resolve

/-!
# Changing a tree

The six ways in which other programs change a tree between two runs. A change that the
operating system would refuse leaves the tree as it is. A time that it cannot store is stored as
near as it can (`FileTree.kept`), and since a move keeps the time, nothing moves from one volume to
another.
-/

namespace TaskStatus

/-- A change of a file tree. -/
inductive Change where
  /-- Writes a file, in directories that are made if need be, and sets its time. -/
  | write (path : Path) (content : Bytes) (modified : Instant)
  /-- Sets the time of a file; it need not be opened for that. -/
  | touch (path : Path) (modified : Instant)
  /-- Makes a directory and the directories that hold it. -/
  | makeDirectory (path : Path)
  /-- Makes a symbolic link. -/
  | link (path target : Path)
  /-- Moves an entry within a volume, in place of what is there. -/
  | rename (source target : Path)
  /-- Removes an entry, and what is below it, unless a volume is mounted there. -/
  | remove (path : Path)

/-- A path without slashes at its end: a directory may be named with them before it is there. -/
def Path.dropSlashes (p : Path) : Path := ⟨(p.bytes.reverse.dropWhile (· = slash)).reverse⟩

namespace FileTree

/-- The tree with a directory where some steps lead, if nothing is there, not even a link
that leads nowhere. -/
def ensureDirectory (t : FileTree) (start : Place) (steps : List Path.Step) : FileTree :=
  match walk t .keep maxLinks start steps with
  | .error _ => t
  | .ok p => if t.node? p = none then t.insert p .directory else t

/-- The tree with directories all along some steps. -/
def ensureDirectories (t : FileTree) (start : Place) (steps : List Path.Step) : FileTree :=
  (List.range steps.length).foldl (fun t i ↦ t.ensureDirectory start (steps.take (i + 1))) t

/-- Whether a node can be put in place of another one. -/
def canReplace (t : FileTree) (node : Node) (target : Place) : Bool :=
  match node, t.node? target with
  | _, none => true
  | .directory, some .directory => t.names target = []
  | .directory, some _ => false
  | _, some .directory => false
  | _, some _ => true

/-- Writes a file at a place, unless something else is there than a file that can be opened. -/
def writeAt (t : FileTree) (p : Place) (content : Bytes) (modified : Instant) : FileTree :=
  match t.node? p with
  | none => t.insert p (.file content (t.kept p modified))
  | some (.file _ _) => t.insert p (.file content (t.kept p modified))
  | some _ => t

/-- The tree after a change. -/
def apply (t : FileTree) : Change → FileTree
  | .write path content modified =>
    let t := t.ensureDirectories (startOf t.workingDirectory path) path.steps.dropLast
    match t.locate .follow path with
    | .ok p => t.writeAt p content modified
    | .error _ => t
  | .touch path modified =>
    match t.resolve path with
    | .ok (p, .file content _) => t.insert p (.file content (t.kept p modified))
    | .ok (p, .unreadable obstacle _) => t.insert p (.unreadable obstacle (t.kept p modified))
    | _ => t
  | .makeDirectory path =>
    t.ensureDirectories (startOf t.workingDirectory path) path.steps
  | .link path target =>
    match t.locate .keep path with
    | .ok p => if t.node? p = none then t.insert p (.link target) else t
    | .error _ => t
  | .rename source target =>
    match t.locate .keep source with
    | .error _ => t
    | .ok s =>
      match t.node? s with
      | none => t
      | some n =>
        match t.locate .keep (if n = .directory then target.dropSlashes else target) with
        | .error _ => t
        | .ok p =>
          if s <:+ p ∨ t.mountPoint s ≠ t.mountPoint p ∨ ¬ t.canReplace n p then t
          else t.move s p
  | .remove path =>
    match t.locate .keep path with
    | .ok p => if t.holdsVolume p then t else t.remove p
    | .error _ => t

/-- The tree after some changes, one after the other. -/
def applyAll (t : FileTree) (changes : List Change) : FileTree := changes.foldl apply t

/-- The name that some text spells; it has to be one. -/
private def nameOf (s : String) (h : IsName (Bytes.ofText s) := by decide) : Name :=
  ⟨Bytes.ofText s, h⟩

/-- A tree with an empty working directory and a few things that every system has: the null device,
an empty directory that is held in memory, and a file that stands for the memory of the program,
of which the first byte cannot be got. -/
def empty : FileTree where
  nodes := [
    ([nameOf "work"], .directory),
    ([nameOf "dev"], .directory),
    ([nameOf "null", nameOf "dev"], .device),
    ([nameOf "shm", nameOf "dev"], .directory),
    ([nameOf "proc"], .directory),
    ([nameOf "self", nameOf "proc"], .directory),
    ([nameOf "mem", nameOf "self", nameOf "proc"], .unreadable .device (.atSecond 0))]
  workingDirectory := [nameOf "work"]
  volumes := [([nameOf "shm", nameOf "dev"], .memory), ([nameOf "proc"], .memory)]

end FileTree

end TaskStatus
