import TaskStatus.Json.Number

/-!
# JSON values

A JSON value is a tree. The members of an object are kept in the order of their keys, by
code points, with one member for a key; `Json.ofMembers` builds an object from members in
the order in which they are written, where the last of several members with one key wins.
`find?_insert_self` and `find?_insert_of_ne` say what giving a key a value does to the
values of the keys.
-/

namespace TaskStatus

/-- A JSON value. -/
inductive Json where
  /-- The value `null`. -/
  | null
  /-- A truth value. -/
  | bool (b : Bool)
  /-- A number. -/
  | number (n : Json.Number)
  /-- A string. -/
  | string (s : String)
  /-- A list of values. -/
  | array (items : List Json)
  /-- Members, in the order of their keys. -/
  | object (members : List (String × Json))

namespace Json

/-- The members of an object in which a key is given a value: a member with that key is
replaced, and without one a new member takes its place in the order of keys. -/
def insert (key : String) (value : Json) : List (String × Json) → List (String × Json)
  | [] => [(key, value)]
  | (k, v) :: rest =>
    if key < k then (key, value) :: (k, v) :: rest
    else if key = k then (key, value) :: rest
    else (k, v) :: insert key value rest

/-- The object with the members as they are written: of those with one key the last
counts. -/
def ofMembers (members : List (String × Json)) : Json :=
  .object (members.foldl (fun ms m ↦ insert m.1 m.2 ms) [])

/-- The value of a key among members. -/
def find? (key : String) : List (String × Json) → Option Json
  | [] => none
  | (k, v) :: rest => if k = key then some v else find? key rest

/-- A key has the value that it was given. -/
@[simp] theorem find?_insert_self (key : String) (value : Json) (ms : List (String × Json)) :
    find? key (insert key value ms) = some value := by
  induction ms with
  | nil => simp [insert, find?]
  | cons m ms ih =>
    rw [insert]
    split
    · simp [find?]
    · split
      · simp [find?]
      · next hne => rw [find?, if_neg (Ne.symm hne), ih]

/-- A key keeps its value when another key is given one. -/
theorem find?_insert_of_ne {key other : String} (h : other ≠ key) (value : Json)
    (ms : List (String × Json)) : find? other (insert key value ms) = find? other ms := by
  induction ms with
  | nil => simp [insert, find?, h.symm]
  | cons m ms ih =>
    rw [insert]
    split
    · rw [find?, if_neg h.symm]
    · split
      · next heq => rw [find?, find?, if_neg h.symm, if_neg (heq ▸ h.symm)]
      · rw [find?, find?, ih]

/-- The members of a value that is an object. -/
def members? : Json → Option (List (String × Json))
  | .object ms => some ms
  | _ => none

end Json

end TaskStatus
