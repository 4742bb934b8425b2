import TaskStatus.FileSystem

/-!
# File trees

A file tree is a finite table of the nodes at *places*. A place is the list of the names
that lead to it from the root, the last one first: the root is the empty place, and the
tail of a place is the place of its directory.

The table is an association list in which the first entry for a place counts. `insert`,
`remove` and `move` are the three ways to change it; `node?` and `names` are the two ways
to look at it. `node?_insert_self`, `node?_insert_of_ne` and `node?_remove` say what a change
does to what is seen.

A regular file can be examined, but perhaps not read: examining needs no permission on the file
and does not touch its content. So there are two kinds of regular files, and `Node.modified?`
is what they have in common.

The places of a tree lie on *volumes*. The root is on a disk, and others are mounted at places of
their own. A volume stores the times of its files in some range only: a time out of the range is
not refused, but replaced by the nearest one that can be stored (`Volume.keep`).
-/

namespace TaskStatus

/-- A place in a tree: the names that lead to it from the root, the last one first. -/
abbrev Place := List Name

/-- Why a regular file cannot be read. -/
inductive Obstacle where
  /-- It must not be opened. -/
  | permission
  /-- It cannot be got from where it is stored. -/
  | device
  deriving DecidableEq, Repr

/-- How a file with an obstacle fails to be read. -/
def Obstacle.error : Obstacle → IoError
  | .permission => .permissionDenied
  | .device => .inputOutput

/-- What is at a place. -/
inductive Node where
  /-- A directory; its entries are the nodes at the places below it. -/
  | directory
  /-- A regular file. -/
  | file (content : Bytes) (modified : Instant)
  /-- A regular file that can be examined, but not read. -/
  | unreadable (obstacle : Obstacle) (modified : Instant)
  /-- A symbolic link. -/
  | link (target : Path)
  /-- A device that reads as empty. -/
  | device
  deriving DecidableEq

/-- When a regular file was last modified. -/
def Node.modified? : Node → Option Instant
  | .file _ modified | .unreadable _ modified => some modified
  | .directory | .link _ | .device => none

/-! ### Volumes -/

/-- What files are stored on, as far as it matters here: the range of the times it can store. -/
structure Volume where
  /-- The first second of the range. -/
  earliest : Int
  /-- The last second of the range. -/
  latest : Int
  deriving DecidableEq, Repr

namespace Volume

/-- A disk, which stores seconds in 34 bits from the end of 1901 on. -/
def disk : Volume := ⟨-2147483648, 15032385535⟩

/-- The memory, which stores seconds in 64 bits. -/
def memory : Volume := ⟨-9223372036854775808, 9223372036854775807⟩

/-- The time that is stored for a given one. The seconds at the two ends of the range are stored
without nanoseconds. -/
def keep (v : Volume) (m : Instant) : Instant :=
  if m.seconds ≤ v.earliest then .atSecond v.earliest
  else if v.latest ≤ m.seconds then .atSecond v.latest
  else m

/-- A time lies within the range. -/
def Storable (v : Volume) (m : Instant) : Prop := v.earliest < m.seconds ∧ m.seconds < v.latest

instance (v : Volume) (m : Instant) : Decidable (v.Storable m) :=
  inferInstanceAs (Decidable (_ ∧ _))

/-- Within the range a time is stored as it is. -/
theorem keep_of_storable {v : Volume} {m : Instant} (h : v.Storable m) : v.keep m = m := by
  rw [keep, if_neg (Int.not_le.2 h.1), if_neg (Int.not_le.2 h.2)]

end Volume

/-- A tree of files with a working directory. -/
structure FileTree where
  /-- What is at which place. -/
  nodes : List (Place × Node)
  /-- The place from which relative paths start. -/
  workingDirectory : Place
  /-- What is mounted at which place. -/
  volumes : List (Place × Volume)

namespace FileTree

/-- What is at a place. The root is a directory. -/
def node? (t : FileTree) (p : Place) : Option Node :=
  if p = [] then some .directory else t.nodes.lookup p

/-- The name of a place in a directory, if it is one. -/
def childName? (dir p : Place) : Option Name :=
  match p with
  | [] => none
  | n :: parent => if parent = dir then some n else none

/-- The names of the entries of a directory. -/
def names (t : FileTree) (dir : Place) : List Name := t.nodes.filterMap fun e ↦ childName? dir e.1

/-- The place where the volume is mounted on which a place lies: the nearest one, from the place
itself up to the root. -/
def mountPoint (t : FileTree) : Place → Place
  | [] => []
  | n :: parent =>
    if (t.volumes.lookup (n :: parent)).isSome then n :: parent else t.mountPoint parent

/-- The volume on which a place lies. -/
def volume (t : FileTree) (p : Place) : Volume := (t.volumes.lookup (t.mountPoint p)).getD .disk

/-- The time that is stored for a given one at a place. -/
def kept (t : FileTree) (p : Place) (m : Instant) : Instant := (t.volume p).keep m

/-- Whether a volume is mounted at a place or below it. -/
def holdsVolume (t : FileTree) (p : Place) : Bool := t.volumes.any (p <:+ ·.1)

/-- The tree with a node at a place. -/
def insert (t : FileTree) (p : Place) (n : Node) : FileTree :=
  { t with nodes := (p, n) :: t.nodes.filter (·.1 ≠ p) }

/-- The tree without a place and the places below it. -/
def remove (t : FileTree) (p : Place) : FileTree :=
  { t with nodes := t.nodes.filter fun e ↦ ¬ p <:+ e.1 }

@[simp] theorem node?_nil (t : FileTree) : t.node? [] = some .directory := rfl

/-- The names of the entries of a directory are those of the places in the table that lie
in it. -/
theorem mem_names {t : FileTree} {dir : Place} {n : Name} :
    n ∈ t.names dir ↔ ∃ node, (n :: dir, node) ∈ t.nodes := by
  simp only [names, List.mem_filterMap, Prod.exists]
  constructor
  · rintro ⟨p, node, hmem, hp⟩
    match p, hp with
    | m :: parent, hp =>
      simp only [childName?] at hp
      split at hp
      · next heq =>
        cases heq
        cases hp
        exact ⟨node, hmem⟩
      · cases hp
  · rintro ⟨node, hmem⟩
    exact ⟨_, node, hmem, by simp [childName?]⟩

/-- What is at a place other than the root stands in the table. -/
theorem mem_nodes_of_node?_eq_some {t : FileTree} {p : Place} {node : Node} (hp : p ≠ [])
    (h : t.node? p = some node) : (p, node) ∈ t.nodes := by
  rw [node?, if_neg hp, List.lookup_eq_some_iff] at h
  obtain ⟨before, behind, hnodes, -⟩ := h
  rw [hnodes]
  exact List.mem_append_right _ List.mem_cons_self

/-- A place has the node that was put there. -/
theorem node?_insert_self (t : FileTree) {p : Place} (n : Node) (h : p ≠ []) :
    (t.insert p n).node? p = some n := by
  simp [node?, insert, h]

/-- What is at one place stays when a node is put at another. -/
theorem node?_insert_of_ne (t : FileTree) {p q : Place} (n : Node) (h : q ≠ p) :
    (t.insert p n).node? q = t.node? q := by
  have lookup_filter (es : List (Place × Node)) :
      (es.filter (·.1 ≠ p)).lookup q = es.lookup q := by
    induction es with
    | nil => rfl
    | cons e es ih =>
      by_cases he : e.1 = p
      · have hq : (q == e.1) = false := by simpa [he] using h
        rw [List.filter_cons_of_neg (by simp [he]), ih, List.lookup_cons, hq]
      · rw [List.filter_cons_of_pos (by simp [he]), List.lookup_cons, List.lookup_cons, ih]
  have hq : (q == p) = false := by simpa using h
  rw [node?, node?, insert, List.lookup_cons, hq, lookup_filter]

/-- Once a place is removed there is nothing at it and below it, and all else stays. -/
theorem node?_remove (t : FileTree) (p : Place) {q : Place} (h : q ≠ []) :
    (t.remove p).node? q = if p <:+ q then none else t.node? q := by
  have lookup_filter (es : List (Place × Node)) :
      (es.filter fun e ↦ ¬ p <:+ e.1).lookup q = if p <:+ q then none else es.lookup q := by
    induction es with
    | nil => simp
    | cons e es ih =>
      obtain ⟨r, node⟩ := e
      by_cases hp : p <:+ r
      · rw [List.filter_cons_of_neg (by simp [hp]), ih]
        split
        · rfl
        · next hq =>
          have hne : (q == r) = false := by
            rw [beq_eq_false_iff_ne]
            rintro rfl
            exact hq hp
          rw [List.lookup_cons, hne]
      · rw [List.filter_cons_of_pos (by simp [hp]), List.lookup_cons, List.lookup_cons, ih]
        cases hqr : q == r
        · rfl
        · rw [beq_iff_eq] at hqr
          subst hqr
          simp [hp]
  rw [node?, node?, if_neg h, if_neg h, remove, lookup_filter]

/-- Where a place is after one at `source` has become one at `target`. -/
def movePlace (source target p : Place) : Place :=
  if source <:+ p then p.take (p.length - source.length) ++ target else p

/-- The tree in which a place and the places below it have moved, to where nothing is. -/
def move (t : FileTree) (source target : Place) : FileTree where
  nodes := (t.remove target).nodes.map fun e ↦ (movePlace source target e.1, e.2)
  workingDirectory := movePlace source target t.workingDirectory
  volumes := t.volumes.map fun e ↦ (movePlace source target e.1, e.2)

end FileTree

end TaskStatus
