import TaskStatus.Proofs.Grammar

/-!
# Which members an object has

Giving keys their values one after the other, in the order in which the members are written, makes
exactly the members that are settled by them (`settles_iff`): `Json.insert` keeps the keys in
order, and a later value replaces an earlier one. Members that stand in the order of their keys
are determined by the values of the keys (`eq_of_find?_eq`), so no other members are settled.
-/

namespace TaskStatus.Json

/-- The keys are in strictly increasing order. -/
abbrev KeysSorted (ms : List (String × Json)) : Prop := ms.Pairwise fun m n ↦ m.1 < n.1

theorem find?_append (key : String) (ms ns : List (String × Json)) :
    find? key (ms ++ ns) = (find? key ms).or (find? key ns) := by
  induction ms with
  | nil => rfl
  | cons m ms ih =>
    rw [List.cons_append, find?, find?]
    split
    · rfl
    · exact ih

/-- A key that is not among the others has no value. -/
theorem find?_eq_none_of_forall_ne {key : String} {ms : List (String × Json)}
    (h : ∀ m ∈ ms, m.1 ≠ key) : find? key ms = none := by
  induction ms with
  | nil => rfl
  | cons m ms ih =>
    rw [find?, if_neg (h m List.mem_cons_self)]
    exact ih fun n hn ↦ h n (List.mem_cons_of_mem m hn)

/-- A key below all others has no value. -/
theorem find?_eq_none_of_forall_lt {key : String} {ms : List (String × Json)}
    (h : ∀ m ∈ ms, key < m.1) : find? key ms = none :=
  find?_eq_none_of_forall_ne fun m hm heq ↦ String.lt_irrefl key (heq ▸ h m hm)

/-- A key that has a value is not below the first one. -/
theorem first_le_of_find?_ne_none {key : String} {m : String × Json} {ms : List (String × Json)}
    (hsorted : KeysSorted (m :: ms)) (h : find? key (m :: ms) ≠ none) : m.1 ≤ key := by
  refine String.not_lt.1 fun hlt ↦ h (find?_eq_none_of_forall_lt ?_)
  have hrest := (List.pairwise_cons.1 hsorted).1
  exact List.forall_mem_cons.2 ⟨hlt, fun n hn ↦ String.lt_trans hlt (hrest n hn)⟩

theorem find?_first (m : String × Json) (ms : List (String × Json)) :
    find? m.1 (m :: ms) = some m.2 := by
  rw [find?, if_pos rfl]

/-- The value of each key determines members that stand in the order of their keys. -/
theorem eq_of_find?_eq {ms ns : List (String × Json)} (hms : KeysSorted ms) (hns : KeysSorted ns)
    (h : ∀ key, find? key ms = find? key ns) : ms = ns := by
  induction ms generalizing ns with
  | nil =>
    cases ns with
    | nil => rfl
    | cons n ns => exact absurd ((h n.1).trans (find?_first n ns)).symm (Option.some_ne_none _)
  | cons m ms ih =>
    cases ns with
    | nil => exact absurd ((h m.1).symm.trans (find?_first m ms)).symm (Option.some_ne_none _)
    | cons n ns =>
      have hfirst := (h m.1).symm.trans (find?_first m ms)
      -- each of the first keys has a value among the other members, so it is not the lesser one
      have hkey : m.1 = n.1 := by
        refine String.le_antisymm (first_le_of_find?_ne_none hms ?_)
          (first_le_of_find?_ne_none hns ?_)
        · rw [h, find?_first]
          exact Option.some_ne_none _
        · rw [hfirst]
          exact Option.some_ne_none _
      have hvalue : m.2 = n.2 := by
        rw [hkey, find?_first] at hfirst
        exact (Option.some.inj hfirst).symm
      have hrest : ms = ns := by
        obtain ⟨hm, hms⟩ := List.pairwise_cons.1 hms
        obtain ⟨hn, hns⟩ := List.pairwise_cons.1 hns
        refine ih hms hns fun key ↦ ?_
        by_cases hcase : m.1 = key
        · rw [find?_eq_none_of_forall_lt (hcase ▸ hm),
            find?_eq_none_of_forall_lt (hcase ▸ hkey ▸ hn)]
        · have hother := h key
          rwa [find?, find?, if_neg hcase, if_neg (hkey ▸ hcase)] at hother
      rw [Prod.ext hkey hvalue, hrest]

/-- Members that stand in the order of their keys settle themselves. -/
theorem settles_self {ms : List (String × Json)} (h : KeysSorted ms) : Settles ms ms := by
  refine ⟨h, fun key ↦ ?_⟩
  induction ms with
  | nil => rfl
  | cons m ms ih =>
    obtain ⟨hm, hms⟩ := List.pairwise_cons.1 h
    rw [List.reverse_cons, find?_append, ← ih hms]
    by_cases hkey : m.1 = key
    · rw [← hkey, find?_first, find?_first, find?_eq_none_of_forall_lt hm, Option.none_or]
    · rw [find?, if_neg hkey, find?, if_neg hkey, find?, Option.or_none]

/-! ### Giving keys their values -/

theorem forall_lt_insert {key low : String} {value : Json} {ms : List (String × Json)}
    (hkey : low < key) (h : ∀ m ∈ ms, low < m.1) : ∀ m ∈ insert key value ms, low < m.1 := by
  induction ms with
  | nil =>
    rw [insert]
    exact List.forall_mem_cons.2 ⟨hkey, h⟩
  | cons m ms ih =>
    obtain ⟨hm, hms⟩ := List.forall_mem_cons.1 h
    rw [insert]
    split
    · exact List.forall_mem_cons.2 ⟨hkey, h⟩
    · split
      · exact List.forall_mem_cons.2 ⟨hkey, hms⟩
      · exact List.forall_mem_cons.2 ⟨hm, ih hms⟩

/-- **One step**: the keys stay in order. -/
theorem keysSorted_insert {key : String} {value : Json} {ms : List (String × Json)}
    (h : KeysSorted ms) : KeysSorted (insert key value ms) := by
  induction ms with
  | nil => exact List.pairwise_singleton _ _
  | cons m ms ih =>
    obtain ⟨hm, hms⟩ := List.pairwise_cons.1 h
    rw [insert]
    split
    · next hlt =>
      exact List.pairwise_cons.2
        ⟨List.forall_mem_cons.2 ⟨hlt, fun n hn ↦ String.lt_trans hlt (hm n hn)⟩, h⟩
    · next hnlt =>
      split
      · next heq => exact List.pairwise_cons.2 ⟨fun n hn ↦ heq ▸ hm n hn, hms⟩
      · next hne =>
        have hlt : m.1 < key := Std.lt_of_le_of_ne (String.not_lt.1 hnlt) (Ne.symm hne)
        exact List.pairwise_cons.2 ⟨forall_lt_insert hlt hm, ih hms⟩

/-- **All steps**: the keys are in order, and each has the value that it was given last. -/
theorem keysSorted_foldl_insert (written : List (String × Json)) {ms : List (String × Json)}
    (h : KeysSorted ms) : KeysSorted (written.foldl (fun ms m ↦ insert m.1 m.2 ms) ms) := by
  induction written generalizing ms with
  | nil => exact h
  | cons m written ih => exact ih (keysSorted_insert h)

theorem find?_foldl_insert (key : String) (written ms : List (String × Json)) :
    find? key (written.foldl (fun ms m ↦ insert m.1 m.2 ms) ms) =
      (find? key written.reverse).or (find? key ms) := by
  induction written generalizing ms with
  | nil => rfl
  | cons m written ih =>
    rw [List.foldl_cons, ih, List.reverse_cons, find?_append, Option.or_assoc]
    congr 1
    by_cases h : m.1 = key
    · rw [← h, find?_insert_self, find?, if_pos rfl, Option.some_or]
    · rw [find?_insert_of_ne (Ne.symm h), find?, if_neg h, find?, Option.none_or]

/-- **Settled members** are those that the reader makes of the members that are written. -/
theorem settles_iff {written members : List (String × Json)} :
    Settles written members ↔ ofMembers written = .object members := by
  have hsettles : Settles written (written.foldl (fun ms m ↦ insert m.1 m.2 ms) []) := by
    refine ⟨keysSorted_foldl_insert written List.Pairwise.nil, fun key ↦ ?_⟩
    rw [find?_foldl_insert, find?, Option.or_none]
  constructor
  · intro h
    refine congrArg Json.object (eq_of_find?_eq hsettles.sorted h.sorted fun key ↦ ?_)
    rw [hsettles.find?_eq, h.find?_eq]
  · intro h
    rwa [← Json.object.inj h]

/-- The written members settle some members. -/
theorem exists_settles (written : List (String × Json)) :
    ∃ members, Settles written members ∧ ofMembers written = .object members :=
  ⟨_, settles_iff.2 rfl, rfl⟩

end TaskStatus.Json
