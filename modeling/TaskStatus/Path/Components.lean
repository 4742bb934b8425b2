import TaskStatus.Path.Basic

/-!
# Components of paths

The components of a path are its root, if it is absolute, and its segments without those
that lead nowhere; a single dot at the start of a relative path stays. The last component
is the path's *file name* if it is a name. A file name is split at its last dot into a stem
and an extension, unless it has no dot or nothing in front of that dot.
-/

namespace TaskStatus.Path

/-- A part of a path that tells where it leads. -/
inductive Component where
  /-- The root directory. -/
  | root
  /-- The directory itself, at the start of a relative path. -/
  | current
  /-- The parent directory. -/
  | parent
  /-- A directory entry. -/
  | named (n : Name)
  deriving DecidableEq

/-- The component of a step behind the start of a path. -/
def Component.ofStep? : Step → Option Component
  | .stay => none
  | .up => some .parent
  | .enter n => some (.named n)

/-- What a path starts with, other than a name or the parent directory. -/
def start (p : Path) : List Component :=
  if p.isAbsolute then [.root]
  else if (splitSlashes p.bytes).head? = some [dot] then [.current]
  else []

/-- The components of a path. -/
def components (p : Path) : List Component :=
  p.start ++ p.steps.filterMap Component.ofStep?

/-- The name that a path ends in. -/
def fileName? (p : Path) : Option Name :=
  match p.components.getLast? with
  | some (.named n) => some n
  | _ => none

/-- Splits bytes at their last dot. -/
def splitLastDot? : Bytes → Option (Bytes × Bytes)
  | [] => none
  | b :: bs =>
    match splitLastDot? bs with
    | some (stem, ext) => some (b :: stem, ext)
    | none => if b = dot then some ([], bs) else none

/-- The extension of a path. -/
def extension? (p : Path) : Option Bytes := do
  let n ← p.fileName?
  let (stem, ext) ← splitLastDot? n.bytes
  if stem = [] then none else some ext

end TaskStatus.Path
