import TaskStatus.FileTree.Change
import TaskStatus.Proofs.PathWalk

/-!
# What a change leaves alone

A change acts at a few places: it puts a file at one, removes what is at or below one, or moves it
from one to another (`footprint`). Besides, it may make directories and links where nothing is. The
**frame** of a change is everything else, and `agree_apply` says what that means for a path that
leads to something: if the change acts nowhere on the way of the path and nowhere above it, then the
path goes the same way afterwards and leads to the same node.

The directories and links that are made need no condition: where nothing is no path leads through.
That is why a change that only adds is in the frame of every path but the one of what it adds.
-/

namespace TaskStatus

namespace FileTree

variable {t : FileTree} {path : Path} {place x : Place} {node n : Node}

/-! ### The three ways to change the table -/

theorem agree_insert (h : x ∉ t.way path) (n : Node) : Agree t (t.insert x n) path := by
  refine ⟨rfl, fun q hq ↦ node?_insert_of_ne t n ?_⟩
  rintro rfl
  exact h hq

/-- A path leads through nothing that is put where nothing was. -/
theorem agree_insert_of_node?_eq_none (h : t.resolve path = .ok (place, node))
    (hx : t.node? x = none) (n : Node) : Agree t (t.insert x n) path :=
  agree_insert (fun hmem ↦ node?_ne_none_of_mem_way h hmem hx) n

theorem agree_remove (h : ∀ q ∈ t.way path, ¬ x <:+ q) : Agree t (t.remove x) path := by
  refine ⟨rfl, fun q hq ↦ ?_⟩
  by_cases hroot : q = []
  · subst hroot
    rfl
  · rw [node?_remove t x hroot, if_neg (h q hq)]

theorem movePlace_of_not_isSuffix {source target p : Place} (h : ¬ source <:+ p) :
    movePlace source target p = p := if_neg h

/-- A place that is neither below the source nor below the target of a move keeps its node. -/
theorem node?_move {source target q : Place} (hs : ¬ source <:+ q) (ht : ¬ target <:+ q) :
    (t.move source target).node? q = t.node? q := by
  by_cases hroot : q = []
  · subst hroot
    rfl
  have hremove := node?_remove t target hroot
  rw [if_neg ht] at hremove
  rw [← hremove, node?, node?, if_neg hroot, if_neg hroot, move]
  generalize (t.remove target).nodes = es
  induction es with
  | nil => rfl
  | cons e es ih =>
    rw [List.map_cons, List.lookup_cons, List.lookup_cons, ih]
    by_cases he : source <:+ e.1
    · -- what is moved was not at the place and does not come to it
      have hbefore : (q == e.1) = false := by
        rw [beq_eq_false_iff_ne]
        rintro rfl
        exact hs he
      have hafter : (q == movePlace source target e.1) = false := by
        rw [beq_eq_false_iff_ne, movePlace, if_pos he]
        rintro rfl
        exact ht (List.suffix_append _ _)
      rw [hbefore, hafter]
    · rw [movePlace_of_not_isSuffix he]

theorem agree_move {source target : Place} (hs : ∀ q ∈ t.way path, ¬ source <:+ q)
    (ht : ∀ q ∈ t.way path, ¬ target <:+ q) : Agree t (t.move source target) path := by
  refine ⟨?_, fun q hq ↦ node?_move (hs q hq) (ht q hq)⟩
  -- the place where the path starts is on its way, so it does not move
  have hstart : ¬ source <:+ startOf t.workingDirectory path := hs _ mem_passed_self
  show startOf (movePlace source target t.workingDirectory) path = _
  rw [startOf] at hstart ⊢
  rw [startOf]
  split
  · rfl
  · next habs =>
    rw [if_neg habs] at hstart
    exact movePlace_of_not_isSuffix hstart

/-! ### Directories that are made -/

theorem ensureDirectory_cases (t : FileTree) (start : Place) (steps : List Path.Step) :
    t.ensureDirectory start steps = t ∨
      ∃ p, t.node? p = none ∧ t.ensureDirectory start steps = t.insert p .directory := by
  rw [ensureDirectory]
  split
  · exact Or.inl rfl
  · next p _ =>
    by_cases hp : t.node? p = none
    · exact Or.inr ⟨p, hp, if_pos hp⟩
    · exact Or.inl (if_neg hp)

theorem agree_ensureDirectories (h : t.resolve path = .ok (place, node)) (start : Place)
    (steps : List Path.Step) : Agree t (t.ensureDirectories start steps) path := by
  rw [ensureDirectories]
  generalize List.range steps.length = is
  induction is generalizing t with
  | nil => exact Agree.refl t path
  | cons i is ih =>
    have hstep : Agree t (t.ensureDirectory start (steps.take (i + 1))) path := by
      rcases ensureDirectory_cases t start (steps.take (i + 1)) with heq | ⟨p, hp, heq⟩
      · rw [heq]
        exact Agree.refl t path
      · rw [heq]
        exact agree_insert_of_node?_eq_none h hp .directory
    exact hstep.trans (ih (hstep.resolve_eq.trans h))

end FileTree

/-! ### Changes -/

namespace Change

/-- The places where a change acts on what may be there: the place of the file that is written or
touched, and the places from which and to which something is moved or removed. -/
def footprint (t : FileTree) : Change → List Place
  | .write path _ _ =>
    let t := t.ensureDirectories (FileTree.startOf t.workingDirectory path) path.steps.dropLast
    (t.locate .follow path).toOption.toList
  | .touch path _ => (t.locate .follow path).toOption.toList
  | .makeDirectory _ | .link _ _ => []
  | .rename source target =>
    (t.locate .keep source).toOption.toList ++ (t.locate .keep target).toOption.toList ++
      (t.locate .keep target.dropSlashes).toOption.toList
  | .remove path => (t.locate .keep path).toOption.toList

end Change

namespace FileTree

/-- A change stays **clear** of a path if it acts neither on its way nor above it. -/
def Clear (t : FileTree) (c : Change) (path : Path) : Prop :=
  ∀ x ∈ c.footprint t, ∀ q ∈ t.way path, ¬ x <:+ q

instance (t : FileTree) (c : Change) (path : Path) : Decidable (t.Clear c path) :=
  inferInstanceAs (Decidable (∀ x ∈ c.footprint t, ∀ q ∈ t.way path, ¬ x <:+ q))

variable {t : FileTree} {path : Path} {place x : Place} {node : Node}

/-- A file is put at a place that is not on the way of a path. -/
theorem agree_writeAt (h : x ∉ t.way path) (content : Bytes) (modified : Instant) :
    Agree t (t.writeAt x content modified) path := by
  rw [writeAt]
  split
  · exact agree_insert h _
  · exact agree_insert h _
  · exact Agree.refl t path

/-- **The frame of a change**: a path that leads to something goes the same way behind a change that
stays clear of it, and leads to the same node. -/
theorem agree_apply (h : t.resolve path = .ok (place, node)) {c : Change} (hc : t.Clear c path) :
    Agree t (t.apply c) path := by
  -- a place at which a change acts is not on the way
  have hoff {x : Place} (hx : x ∈ c.footprint t) : x ∉ t.way path :=
    fun hmem ↦ hc x hx x hmem List.suffix_rfl
  cases c with
  | write q content modified =>
    have hdirs := agree_ensureDirectories h (startOf t.workingDirectory q) q.steps.dropLast
    rw [apply]
    split
    · next x hx =>
      refine hdirs.trans (agree_writeAt ?_ content modified)
      rw [hdirs.way_eq]
      exact hoff (by simp [Change.footprint, hx, Except.toOption])
    · exact hdirs
  | touch q modified =>
    rw [apply]
    -- the time is set at the place to which the path leads
    have htouched {x : Place} {m : Node} (hx : t.resolve q = .ok (x, m)) (m' : Node) :
        Agree t (t.insert x m') path := by
      have hlocate := (resolve_eq_ok_iff.1 hx).1
      exact agree_insert (hoff (by simp [Change.footprint, hlocate, Except.toOption])) _
    split
    · next hx => exact htouched hx _
    · next hx => exact htouched hx _
    · exact Agree.refl t path
  | makeDirectory q => exact agree_ensureDirectories h _ _
  | link q target =>
    rw [apply]
    split
    · next x _ =>
      by_cases hx : t.node? x = none
      · rw [if_pos hx]
        exact agree_insert_of_node?_eq_none h hx _
      · rw [if_neg hx]
        exact Agree.refl t path
    · exact Agree.refl t path
  | rename source target =>
    rw [apply]
    split
    · exact Agree.refl t path
    · next s hs =>
      split
      · exact Agree.refl t path
      · next n _ =>
        split
        · exact Agree.refl t path
        · next p hp =>
          by_cases hrefused : s <:+ p ∨ t.mountPoint s ≠ t.mountPoint p ∨ ¬ t.canReplace n p
          · rw [if_pos hrefused]
            exact Agree.refl t path
          · rw [if_neg hrefused]
            have hsource : s ∈ (Change.rename source target).footprint t := by
              simp [Change.footprint, hs, Except.toOption]
            have htarget : p ∈ (Change.rename source target).footprint t := by
              by_cases hn : n = .directory
              · rw [if_pos hn] at hp
                simp [Change.footprint, hp, Except.toOption]
              · rw [if_neg hn] at hp
                simp [Change.footprint, hp, Except.toOption]
            exact agree_move (hc s hsource) (hc p htarget)
  | remove q =>
    rw [apply]
    split
    · next x hx =>
      split
      · exact Agree.refl t path
      · exact agree_remove (hc x (by simp [Change.footprint, hx, Except.toOption]))
    · exact Agree.refl t path

end FileTree

end TaskStatus
