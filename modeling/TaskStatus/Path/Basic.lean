import TaskStatus.Text

/-!
# Paths

A path is a string of bytes in which slashes separate segments. A segment that is empty or
a single dot leads nowhere, two dots lead to the parent directory, and any other segment is
the name of a directory entry.

A path is joined with a name by a single slash, unless it is empty or ends in one already.
-/

namespace TaskStatus

/-- The byte of a slash. -/
def slash : UInt8 := 0x2F

/-- The byte of a dot. -/
def dot : UInt8 := 0x2E

/-- Whether bytes can be the name of a directory entry: not empty, without a slash, and
neither of the two names that every directory has. -/
def IsName (b : Bytes) : Prop := b ≠ [] ∧ b ≠ [dot] ∧ b ≠ [dot, dot] ∧ slash ∉ b

instance (b : Bytes) : Decidable (IsName b) := by unfold IsName; infer_instance

/-- The name of a directory entry. -/
structure Name where
  /-- The bytes of the name. -/
  bytes : Bytes
  /-- They can be a name. -/
  isName : IsName bytes
  deriving DecidableEq

/-- A path. -/
structure Path where
  /-- The bytes of the path. -/
  bytes : Bytes
  deriving DecidableEq, Repr

namespace Path

/-- The path that a text spells. -/
def ofText (s : String) : Path := ⟨Bytes.ofText s⟩

/-- The text shown for a path. -/
def display (p : Path) : String := p.bytes.lossy

/-- The entry with a name in the directory of a path. -/
def join (p : Path) (n : Name) : Path :=
  ⟨p.bytes ++ (if p.bytes = [] ∨ p.bytes.getLast? = some slash then [] else [slash])
    ++ n.bytes⟩

/-- Whether a path starts at the root. -/
def isAbsolute (p : Path) : Bool := p.bytes.head? = some slash

/-- The parts of some bytes between slashes. -/
def splitSlashes : Bytes → List Bytes
  | [] => [[]]
  | b :: bs =>
    if b = slash then [] :: splitSlashes bs
    else
      match splitSlashes bs with
      | [] => [[b]]
      | s :: ss => (b :: s) :: ss

theorem splitSlashes_ne_nil (b : Bytes) : splitSlashes b ≠ [] := by
  cases b with
  | nil => simp [splitSlashes]
  | cons c b =>
    rw [splitSlashes]
    split
    · simp
    · split <;> simp

/-- Bytes without a slash are one part. -/
theorem splitSlashes_of_not_mem {b : Bytes} (h : slash ∉ b) : splitSlashes b = [b] := by
  induction b with
  | nil => rfl
  | cons c b ih =>
    rw [List.mem_cons, not_or] at h
    rw [splitSlashes, if_neg (Ne.symm h.1), ih h.2]

/-- A slash separates the parts before it from the parts behind it. -/
theorem splitSlashes_append_slash (a b : Bytes) :
    splitSlashes (a ++ slash :: b) = splitSlashes a ++ splitSlashes b := by
  induction a with
  | nil => simp [splitSlashes]
  | cons c a ih =>
    rw [List.cons_append, splitSlashes, splitSlashes, ih]
    split
    · rfl
    · match hs : splitSlashes a with
      | [] => exact absurd hs (splitSlashes_ne_nil a)
      | s :: ss => rfl

/-- What a segment of a path says about the way. -/
inductive Step where
  /-- Stay in this directory. -/
  | stay
  /-- Go to the parent directory. -/
  | up
  /-- Go to the entry with a name. -/
  | enter (n : Name)
  deriving DecidableEq

/-- What a segment says. -/
def Step.ofSegment (s : Bytes) : Step :=
  if s = [dot, dot] then .up else if h : IsName s then .enter ⟨s, h⟩ else .stay

/-- The steps of a path, from its start. -/
def steps (p : Path) : List Step := (splitSlashes p.bytes).map Step.ofSegment

end Path

end TaskStatus
