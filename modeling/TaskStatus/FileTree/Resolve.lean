import TaskStatus.FileTree.Basic

/-!
# Following paths through a tree

A path is followed step by step from the working directory, or from the root if it is
absolute. Every step needs a directory to start from. A step to a symbolic link goes on
with the steps of the link's target, from the directory that holds the link, before those
that are left; at most forty links are followed. The last step may lead to a place where
nothing is yet, since that is where a new file goes.

A path with a zero byte, an empty one and one that is too long are refused before any step,
and a name that is too long when it is reached.

`stat`, `read` and `list` follow a path by the same function, so they agree on where it
leads.
-/

namespace TaskStatus.FileTree

/-- The greatest length of a name in bytes. -/
def maxName : Nat := 255

/-- The greatest length of a path in bytes. -/
def maxPath : Nat := 4095

/-- How many symbolic links a path may lead through. -/
def maxLinks : Nat := 40

/-- Whether a link at the end of a path is followed. -/
inductive Last where
  /-- The path means what the link leads to. -/
  | follow
  /-- The path means the link itself. -/
  | keep
  deriving DecidableEq

/-- Where a path starts that is followed from a directory. -/
def startOf (dir : Place) (p : Path) : Place := if p.isAbsolute then [] else dir

/-- Takes steps from a place. At a symbolic link, `enter` goes on from the directory that
holds it, with the steps of its target before those that are left. -/
def walkWith (t : FileTree) (last : Last) (enter : Place → List Path.Step → Except IoError Place) :
    Place → List Path.Step → Except IoError Place
  | p, [] => .ok p
  | p, s :: ss =>
    if t.node? p ≠ some .directory then .error .notADirectory
    else
      match s with
      | .stay => walkWith t last enter p ss
      | .up => walkWith t last enter p.tail ss
      | .enter n =>
        if maxName < n.bytes.length then .error .nameTooLong
        else
          match t.node? (n :: p) with
          | none => if ss = [] then .ok (n :: p) else .error .notFound
          | some (.link target) =>
            if ss = [] ∧ last = .keep then .ok (n :: p)
            else if target.bytes = [] then .error .notFound
            else enter (startOf p target) (target.steps ++ ss)
          | some _ => walkWith t last enter (n :: p) ss

/-- Takes steps from a place, through as many links as the bound says. -/
def walk (t : FileTree) (last : Last) : Nat → Place → List Path.Step → Except IoError Place
  | 0 => walkWith t last fun _ _ ↦ .error .tooManyLinks
  | links + 1 => walkWith t last (walk t last links)

/-- The place that a path means, where there need not be anything yet. -/
def locate (t : FileTree) (last : Last) (p : Path) : Except IoError Place :=
  if 0 ∈ p.bytes then .error .zeroByte
  else if p.bytes = [] then .error .notFound
  else if maxPath < p.bytes.length then .error .nameTooLong
  else walk t last maxLinks (startOf t.workingDirectory p) p.steps

/-- The node that a path leads to. -/
def resolve (t : FileTree) (p : Path) : Except IoError (Place × Node) :=
  match t.locate .follow p with
  | .error e => .error e
  | .ok place =>
    match t.node? place with
    | none => .error .notFound
    | some n => .ok (place, n)

/-- What a path leads to. -/
def stat (t : FileTree) (p : Path) : Except IoError Metadata :=
  (t.resolve p).map fun r ↦ r.2.modified?.elim .other .file

/-- The content of the file that a path leads to. -/
def read (t : FileTree) (p : Path) : Except IoError Bytes :=
  match t.resolve p with
  | .error e => .error e
  | .ok (_, .file content _) => .ok content
  | .ok (_, .unreadable obstacle _) => .error obstacle.error
  | .ok (_, .device) => .ok []
  | .ok _ => .error .isADirectory

/-- The names in the directory that a path leads to. -/
def list (t : FileTree) (p : Path) : Except IoError (List Name) :=
  match t.resolve p with
  | .error e => .error e
  | .ok (place, .directory) => .ok (t.names place)
  | .ok _ => .error .notADirectory

/-- The answers of a tree. -/
def fileSystem (t : FileTree) : FileSystem := ⟨t.list, t.stat, t.read⟩

end TaskStatus.FileTree
