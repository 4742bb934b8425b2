import TaskStatus.FileTree.Resolve

/-!
# The way of a path

Following a path is a recursion over its steps and over the links that may still be followed. Here
it is taken apart once, so that no other proof has to open it:

* one step leads to a `Turn`, which is all that the recursion looks at (`walk_cons`), and
  `walk_induction` is the induction that fits to it;
* the **way** of a path is the list of the places that are looked at (`passed`, `way`). What a path
  leads to is a matter of the nodes on its way (`Agree.resolve_eq`), which are directories and links
  but for the place where it ends (`eq_or_passable_of_mem_way`);
* a path that goes on behind others reaches a directory by them, and goes on from there
  (`walk_append_cases`).
-/

namespace TaskStatus.FileTree

/-- Where one step leads. -/
inductive Turn where
  /-- Nowhere. -/
  | stop (e : IoError)
  /-- To a place where nothing is. -/
  | vacant (p : Place)
  /-- To a link, from which the way goes on to its target. -/
  | link (p : Place) (target : Path)
  /-- To a place with something else. -/
  | place (p : Place)

/-- The place that a step leads to. -/
def Turn.place? : Turn → Option Place
  | .stop _ => none
  | .vacant p | .link p _ | .place p => some p

/-- Where a step leads from a place. -/
def turn (t : FileTree) (p : Place) (s : Path.Step) : Turn :=
  if t.node? p ≠ some .directory then .stop .notADirectory
  else
    match s with
    | .stay => .place p
    | .up => .place p.tail
    | .enter n =>
      if maxName < n.bytes.length then .stop .nameTooLong
      else
        match t.node? (n :: p) with
        | none => .vacant (n :: p)
        | some (.link target) => .link (n :: p) target
        | some _ => .place (n :: p)

/-- Takes steps from a place behind a link, if one more link may be followed. -/
def walkOn (t : FileTree) (last : Last) : Nat → Place → List Path.Step → Except IoError Place
  | 0 => fun _ _ ↦ .error .tooManyLinks
  | links + 1 => t.walk last links

section

variable {t t' : FileTree} {last : Last} {links : Nat} {p q r : Place} {s : Path.Step}
  {xs ys : List Path.Step}

theorem walk_nil : t.walk last links p [] = .ok p := by
  cases links <;> rfl

/-- **One step** of following a path. -/
theorem walk_cons :
    t.walk last links p (s :: xs) =
      match t.turn p s with
      | .stop e => .error e
      | .vacant q => if xs = [] then .ok q else .error .notFound
      | .link q target =>
        if xs = [] ∧ last = .keep then .ok q
        else if target.bytes = [] then .error .notFound
        else t.walkOn last links (startOf q.tail target) (target.steps ++ xs)
      | .place q => t.walk last links q xs := by
  have hwalk : t.walk last links = t.walkWith last (t.walkOn last links) := by
    cases links <;> rfl
  rw [hwalk]
  by_cases hp : t.node? p = some .directory
  · cases s with
    | stay => simp [walkWith, turn, hp]
    | up => simp [walkWith, turn, hp]
    | enter n =>
      by_cases hlen : maxName < n.bytes.length
      · simp [walkWith, turn, hp, hlen]
      · rcases hn : t.node? (n :: p) with - | node
        · simp [walkWith, turn, hp, hlen, hn]
        · cases node <;> simp [walkWith, turn, hp, hlen, hn]
  · simp [walkWith, turn, hp]

/-- **Induction along a path**: over the steps, and behind a link over the links that are left. -/
theorem walk_induction {motive : Nat → Place → List Path.Step → Prop}
    (nil : ∀ links p, motive links p [])
    (cons : ∀ links p s xs, (∀ q, motive links q xs) →
      (∀ left, links = left + 1 → ∀ q ys, motive left q ys) → motive links p (s :: xs))
    (links : Nat) (p : Place) (xs : List Path.Step) : motive links p xs := by
  induction links generalizing p xs with
  | zero =>
    induction xs generalizing p with
    | nil => exact nil 0 p
    | cons s xs ih => exact cons 0 p s xs ih nofun
  | succ left ihleft =>
    induction xs generalizing p with
    | nil => exact nil (left + 1) p
    | cons s xs ih =>
      refine cons (left + 1) p s xs ih fun left' hleft q ys ↦ ?_
      obtain rfl : left = left' := Nat.succ.inj hleft
      exact ihleft q ys

/-! ### What one step says -/

/-- A step leads on only from a directory. -/
theorem turn_of_ne_directory (h : t.node? p ≠ some .directory) :
    t.turn p s = .stop .notADirectory := by
  simp [turn, h]

/-- What is at the place that a step leads to. -/
theorem node?_of_turn (h : t.node? p = some .directory) :
    (∃ e, t.turn p s = .stop e) ∨ (∃ q, t.turn p s = .vacant q ∧ t.node? q = none) ∨
      (∃ q target, t.turn p s = .link q target ∧ t.node? q = some (.link target)) ∨
      ∃ q, t.turn p s = .place q := by
  cases s with
  | stay => simp [turn, h]
  | up => simp [turn, h]
  | enter n =>
    by_cases hlen : maxName < n.bytes.length
    · simp [turn, h, hlen]
    · rcases hn : t.node? (n :: p) with - | node
      · simp [turn, h, hlen, hn]
      · cases node with
        | link target => exact Or.inr (Or.inr (Or.inl ⟨_, target, by simp [turn, h, hlen, hn], hn⟩))
        | directory | file | unreadable | device => simp [turn, h, hlen, hn]

/-- A step leads where it leads because of the place that it starts from and the place that it leads
to. -/
theorem turn_congr (hp : t'.node? p = t.node? p)
    (hq : ∀ q, (t.turn p s).place? = some q → t'.node? q = t.node? q) :
    t'.turn p s = t.turn p s := by
  by_cases hdir : t.node? p = some .directory
  · cases s with
    | stay => simp [turn, hp]
    | up => simp [turn, hp]
    | enter n =>
      by_cases hlen : maxName < n.bytes.length
      · simp [turn, hp, hlen]
      · have hplace : (t.turn p (.enter n)).place? = some (n :: p) := by
          rcases hn : t.node? (n :: p) with - | node
          · simp [turn, hdir, hlen, hn, Turn.place?]
          · cases node <;> simp [turn, hdir, hlen, hn, Turn.place?]
        simp [turn, hp, hlen, hq _ hplace]
  · rw [turn_of_ne_directory hdir, turn_of_ne_directory (hp ▸ hdir)]

/-! ### The way -/

/-- The places that are looked at on the way from a place. Behind a link, `enter` goes on. -/
def passedWith (t : FileTree) (enter : Place → List Path.Step → List Place) :
    Place → List Path.Step → List Place
  | p, [] => [p]
  | p, s :: ss =>
    p :: match t.turn p s with
      | .stop _ => []
      | .vacant q => [q]
      | .link q target => q :: enter (startOf q.tail target) (target.steps ++ ss)
      | .place q => passedWith t enter q ss

/-- The places that are looked at on the way from a place, through as many links as the bound
says. -/
def passed (t : FileTree) : Nat → Place → List Path.Step → List Place
  | 0 => passedWith t fun _ _ ↦ []
  | links + 1 => passedWith t (passed t links)

/-- The places behind a link. -/
def passedOn (t : FileTree) : Nat → Place → List Path.Step → List Place
  | 0 => fun _ _ ↦ []
  | links + 1 => t.passed links

theorem passed_nil : t.passed links p [] = [p] := by
  cases links <;> rfl

theorem passed_cons :
    t.passed links p (s :: xs) =
      p :: match t.turn p s with
        | .stop _ => []
        | .vacant q => [q]
        | .link q target => q :: t.passedOn links (startOf q.tail target) (target.steps ++ xs)
        | .place q => t.passed links q xs := by
  cases links <;> rfl

theorem mem_passed_self : p ∈ t.passed links p xs := by
  cases xs with
  | nil => simp [passed_nil]
  | cons s xs => simp [passed_cons]

/-- **What is looked at decides**: a path goes the same way in trees that agree on it. -/
theorem walk_congr (h : ∀ q ∈ t.passed links p xs, t'.node? q = t.node? q) :
    t'.passed links p xs = t.passed links p xs ∧
      ∀ last, t'.walk last links p xs = t.walk last links p xs := by
  induction links, p, xs using walk_induction with
  | nil links p => simp [passed_nil, walk_nil]
  | cons links p s xs ih ihlink =>
    rw [passed_cons, List.forall_mem_cons] at h
    obtain ⟨hp, htail⟩ := h
    have hturn (hplace : ∀ q, (t.turn p s).place? = some q → t'.node? q = t.node? q) :
        t'.turn p s = t.turn p s := turn_congr hp hplace
    -- a step leads to one place at most
    have hone {q : Place} (hq : t'.node? q = t.node? q) (r : Place) (hr : some q = some r) :
        t'.node? r = t.node? r := Option.some.inj hr ▸ hq
    rcases hx : t.turn p s with e | q | ⟨q, target⟩ | q <;> rw [hx] at htail hturn
    · simp only [passed_cons, walk_cons, hturn nofun, hx, implies_true, and_self]
    · have hq := htail q (List.mem_singleton_self q)
      simp only [passed_cons, walk_cons, hturn (hone hq), hx, implies_true, and_self]
    · obtain ⟨hq, htail⟩ := List.forall_mem_cons.1 htail
      have hon : t'.passedOn links (startOf q.tail target) (target.steps ++ xs) =
            t.passedOn links (startOf q.tail target) (target.steps ++ xs) ∧
          ∀ last, t'.walkOn last links (startOf q.tail target) (target.steps ++ xs) =
            t.walkOn last links (startOf q.tail target) (target.steps ++ xs) := by
        cases links with
        | zero => exact ⟨rfl, fun _ ↦ rfl⟩
        | succ left => exact ihlink left rfl _ _ htail
      simp only [passed_cons, walk_cons, hturn (hone hq), hx, hon.1, hon.2, implies_true, and_self]
    · have hq := htail q mem_passed_self
      simp only [passed_cons, walk_cons, hturn (hone hq), hx, (ih q htail).1, (ih q htail).2,
        implies_true, and_self]

/-- **The places on a way that leads somewhere**: but for its end there are directories and
links. -/
theorem eq_or_passable_of_mem_passed (h : t.walk .follow links p xs = .ok q)
    (hr : r ∈ t.passed links p xs) :
    r = q ∨ t.node? r = some .directory ∨ ∃ target, t.node? r = some (.link target) := by
  induction links, p, xs using walk_induction with
  | nil links p =>
    rw [walk_nil] at h
    rw [passed_nil, List.mem_singleton] at hr
    exact Or.inl (hr.trans (Except.ok.inj h))
  | cons links p s xs ih ihlink =>
    by_cases hdir : t.node? p = some .directory
    · rw [walk_cons] at h
      rw [passed_cons, List.mem_cons] at hr
      rcases hr with rfl | hr
      · exact Or.inr (Or.inl hdir)
      rcases node?_of_turn (s := s) hdir with
        ⟨e, hx⟩ | ⟨x, hx, -⟩ | ⟨x, target, hx, hlink⟩ | ⟨x, hx⟩ <;> rw [hx] at h hr <;>
        dsimp only at h hr
      · cases h
      · split at h
        · exact Or.inl ((List.mem_singleton.1 hr).trans (Except.ok.inj h))
        · cases h
      · rcases List.mem_cons.1 hr with rfl | hr
        · exact Or.inr (Or.inr ⟨target, hlink⟩)
        · simp only [reduceCtorEq, and_false, if_false] at h
          split at h
          · cases h
          · cases links with
            | zero => cases h
            | succ left => exact ihlink left rfl _ _ h hr
      · exact ih x h hr
    · rw [walk_cons, turn_of_ne_directory hdir] at h
      cases h

/-- A path leads to a place that is on the way of every path that goes on behind it. -/
theorem mem_passed_append (h : t.walk last links p xs = .ok q) (ys : List Path.Step) :
    q ∈ t.passed links p (xs ++ ys) := by
  induction links, p, xs using walk_induction with
  | nil links p =>
    rw [walk_nil] at h
    obtain rfl := Except.ok.inj h
    exact mem_passed_self
  | cons links p s xs ih ihlink =>
    rw [walk_cons] at h
    rw [List.cons_append, passed_cons]
    refine List.mem_cons_of_mem _ ?_
    rcases hx : t.turn p s with e | x | ⟨x, target⟩ | x <;> simp only [hx] at h ⊢
    · cases h
    · split at h
      · obtain rfl := Except.ok.inj h
        exact List.mem_singleton_self _
      · cases h
    · split at h
      · obtain rfl := Except.ok.inj h
        exact List.mem_cons_self
      · split at h
        · cases h
        · refine List.mem_cons_of_mem _ ?_
          rw [← List.append_assoc]
          cases links with
          | zero => cases h
          | succ left => exact ihlink left rfl _ _ h
    · exact ih x h

/-! ### Going on behind a path -/

/-- **Going on behind a path**: either it reaches a place from which every path behind it goes on,
or no path goes on behind it and it leads to nothing that is there. -/
theorem walk_append_cases (t : FileTree) (links : Nat) (p : Place) (xs : List Path.Step) :
    (∃ left q, ∀ ys, t.walk .follow links p (xs ++ ys) = t.walk .follow left q ys) ∨
      (∀ q, t.walk .follow links p xs = .ok q → t.node? q = none) ∧
        ∀ ys, ys ≠ [] → ∃ e, t.walk .follow links p (xs ++ ys) = .error e := by
  induction links, p, xs using walk_induction with
  | nil links p => exact Or.inl ⟨links, p, fun _ ↦ rfl⟩
  | cons links p s xs ih ihlink =>
    -- a failure that does not depend on what stands behind
    have hfail (e : IoError) (h : ∀ ys, t.walk .follow links p (s :: xs ++ ys) = .error e) :
        (∀ q, t.walk .follow links p (s :: xs) = .ok q → t.node? q = none) ∧
          ∀ ys, ys ≠ [] → ∃ e, t.walk .follow links p (s :: xs ++ ys) = .error e := by
      refine ⟨fun q hq ↦ ?_, fun ys _ ↦ ⟨e, h ys⟩⟩
      have herror := h []
      rw [List.append_nil, hq] at herror
      cases herror
    by_cases hdir : t.node? p = some .directory
    · rcases node?_of_turn (s := s) hdir with
        ⟨e, hx⟩ | ⟨x, hx, hnone⟩ | ⟨x, target, hx, -⟩ | ⟨x, hx⟩
      · exact Or.inr (hfail e fun ys ↦ by rw [List.cons_append, walk_cons, hx])
      · refine Or.inr ⟨fun q hq ↦ ?_, fun ys hys ↦ ⟨.notFound, ?_⟩⟩
        · simp only [walk_cons, hx] at hq
          split at hq
          · rw [← Except.ok.inj hq]
            exact hnone
          · cases hq
        · simp [walk_cons, hx, hys]
      · by_cases htarget : target.bytes = []
        · refine Or.inr (hfail .notFound fun ys ↦ ?_)
          simp [walk_cons, hx, htarget]
        · have hstep (ys : List Path.Step) : t.walk .follow links p (s :: xs ++ ys) =
              t.walkOn .follow links (startOf x.tail target) (target.steps ++ xs ++ ys) := by
            simp [walk_cons, hx, htarget]
          cases links with
          | zero => exact Or.inr (hfail .tooManyLinks hstep)
          | succ left =>
            have hstep' : t.walk .follow (left + 1) p (s :: xs) =
                t.walk .follow left (startOf x.tail target) (target.steps ++ xs) := by
              have hnil := hstep []
              rwa [List.append_nil, List.append_nil] at hnil
            simp only [hstep, hstep']
            exact ihlink left rfl _ _
      · simp only [List.cons_append, walk_cons, hx]
        exact ih x
    · refine Or.inr (hfail .notADirectory fun ys ↦ ?_)
      rw [List.cons_append, walk_cons, turn_of_ne_directory hdir]

/-- From a directory that a path leads to every path behind it goes on. -/
theorem exists_walk_append_of_directory (h : t.walk .follow links p xs = .ok q)
    (hq : t.node? q = some .directory) :
    ∃ left, ∀ ys, t.walk .follow links p (xs ++ ys) = t.walk .follow left q ys := by
  rcases walk_append_cases t links p xs with ⟨left, r, hr⟩ | ⟨hnone, -⟩
  · have hself := hr []
    rw [List.append_nil, h, walk_nil] at hself
    obtain rfl := Except.ok.inj hself
    exact ⟨left, hr⟩
  · rw [hnone q h] at hq
    cases hq

/-- A path that goes on behind another goes on from a directory that this one leads to. -/
theorem exists_directory_of_walk_append (h : t.walk .follow links p (xs ++ ys) = .ok r)
    (hys : ys ≠ []) :
    ∃ q left, t.walk .follow links p xs = .ok q ∧ t.node? q = some .directory ∧
      t.walk .follow left q ys = .ok r := by
  rcases walk_append_cases t links p xs with ⟨left, q, hq⟩ | ⟨-, herror⟩
  · have hxs := hq []
    rw [List.append_nil, walk_nil] at hxs
    rw [hq] at h
    refine ⟨q, left, hxs, Classical.not_not.1 fun hdir ↦ ?_, h⟩
    obtain ⟨s, ss, rfl⟩ := List.exists_cons_of_ne_nil hys
    rw [walk_cons, turn_of_ne_directory hdir] at h
    cases h
  · obtain ⟨e, he⟩ := herror ys hys
    cases he.symm.trans h

/-! ### Whole paths -/

/-- A path that can be followed at all: it is not empty, not too long and has no zero byte. -/
def IsAddress (path : Path) : Prop :=
  0 ∉ path.bytes ∧ path.bytes ≠ [] ∧ path.bytes.length ≤ maxPath

instance (path : Path) : Decidable (IsAddress path) := inferInstanceAs (Decidable (_ ∧ _))

/-- The places that are looked at on the way of a path. -/
def way (t : FileTree) (path : Path) : List Place :=
  t.passed maxLinks (startOf t.workingDirectory path) path.steps

variable {path : Path} {place : Place} {node : Node}

theorem locate_eq_ok_iff :
    t.locate last path = .ok place ↔ IsAddress path ∧
      t.walk last maxLinks (startOf t.workingDirectory path) path.steps = .ok place := by
  by_cases h : IsAddress path
  · obtain ⟨hzero, hempty, hlength⟩ := h
    rw [locate, if_neg hzero, if_neg hempty, if_neg (Nat.not_lt.2 hlength)]
    exact (and_iff_right ⟨hzero, hempty, hlength⟩).symm
  · refine iff_of_false (fun hlocate ↦ h ?_) fun hlocate ↦ h hlocate.1
    rw [locate] at hlocate
    by_cases hzero : 0 ∈ path.bytes
    · rw [if_pos hzero] at hlocate
      cases hlocate
    · by_cases hempty : path.bytes = []
      · rw [if_neg hzero, if_pos hempty] at hlocate
        cases hlocate
      · refine ⟨hzero, hempty, Nat.not_lt.1 fun hlong ↦ ?_⟩
        rw [if_neg hzero, if_neg hempty, if_pos hlong] at hlocate
        cases hlocate

theorem resolve_eq_ok_iff :
    t.resolve path = .ok (place, node) ↔
      t.locate .follow path = .ok place ∧ t.node? place = some node := by
  rw [resolve]
  rcases t.locate .follow path with e | q
  · simp
  · by_cases hq : q = place
    · subst hq
      rcases hm : t.node? q with - | m <;> simp [hm]
    · rcases hm : t.node? q with - | m <;> simp [hm, hq]

/-- A path ends on its way. -/
theorem mem_way_of_locate (h : t.locate last path = .ok place) : place ∈ t.way path := by
  have hmem := mem_passed_append (locate_eq_ok_iff.1 h).2 []
  rwa [List.append_nil] at hmem

theorem eq_or_passable_of_mem_way (h : t.resolve path = .ok (place, node)) (hr : r ∈ t.way path) :
    r = place ∨ t.node? r = some .directory ∨ ∃ target, t.node? r = some (.link target) :=
  eq_or_passable_of_mem_passed (locate_eq_ok_iff.1 (resolve_eq_ok_iff.1 h).1).2 hr

/-- On the way of a path that leads to something, something is everywhere. -/
theorem node?_ne_none_of_mem_way (h : t.resolve path = .ok (place, node)) (hr : r ∈ t.way path) :
    t.node? r ≠ none := by
  rcases eq_or_passable_of_mem_way h hr with rfl | hr | ⟨target, hr⟩
  · simp [(resolve_eq_ok_iff.1 h).2]
  · simp [hr]
  · simp [hr]

/-- Two trees **agree** on a path: it starts at the same place, and the nodes that are on its way in
the first tree are there in the other one too. -/
structure Agree (t t' : FileTree) (path : Path) : Prop where
  /-- The path starts at the same place. -/
  start : startOf t'.workingDirectory path = startOf t.workingDirectory path
  /-- The same nodes are on the way. -/
  node? : ∀ q ∈ t.way path, t'.node? q = t.node? q

theorem Agree.refl (t : FileTree) (path : Path) : Agree t t path := ⟨rfl, fun _ _ ↦ rfl⟩

theorem Agree.way_eq (h : Agree t t' path) : t'.way path = t.way path := by
  rw [way, h.start]
  exact (walk_congr h.node?).1

theorem Agree.trans {t'' : FileTree} (h : Agree t t' path) (h' : Agree t' t'' path) :
    Agree t t'' path := by
  refine ⟨h'.start.trans h.start, fun q hq ↦ ?_⟩
  rw [h'.node? q (h.way_eq ▸ hq), h.node? q hq]

theorem Agree.locate_eq (h : Agree t t' path) (last : Last) :
    t'.locate last path = t.locate last path := by
  rw [locate, locate, h.start, (walk_congr h.node?).2]

/-- **A path leads to the same node** in trees that agree on it. -/
theorem Agree.resolve_eq (h : Agree t t' path) : t'.resolve path = t.resolve path := by
  rw [resolve, resolve, h.locate_eq]
  rcases hlocate : t.locate .follow path with e | q
  · rfl
  · dsimp only
    rw [h.node? q (mem_way_of_locate hlocate)]

end

end TaskStatus.FileTree
