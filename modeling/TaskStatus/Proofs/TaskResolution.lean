import TaskStatus.Proofs.TrackedTask

/-!
# How a document resolves

What a document says about the current task, by the members of its members and without the steps in
which it is found. The payload, the section on tasks and the entities are values here
(`payloadOf`, `sectionOf`, `entitiesOf`): a section that is missing is the empty object, and any
value may stand where an object is required.

Three outcomes exclude each other and leave no document over:

* a part that the way leads to is no object (`Walked`): the document is refused with this part;
* all of these parts are objects, and the key that is pointed at leads to a task (`Resolves`);
* neither is so: nothing was tracked.

For each of them it is enough to show what is found then (`Walked.extract_eq`,
`Resolves.extract_eq`, `extract_eq_idle`), and that a document is read in one way gives the
converses.
-/

namespace TaskStatus

namespace Json

/-- The value of a key in a value: only an object has one. -/
def member? (key : String) (v : Json) : Option Json := v.members?.bind (find? key)

/-- A value is an object. -/
def IsObject (v : Json) : Prop := ∃ ms, v = .object ms

@[simp] theorem member?_object (key : String) (ms : List (String × Json)) :
    (Json.object ms).member? key = find? key ms := rfl

theorem isObject_object (ms : List (String × Json)) : (Json.object ms).IsObject := ⟨ms, rfl⟩

/-- A value is an object if it and what stands in for it are. -/
theorem isObject_getD {v? : Option Json} {w : Json} (hw : w.IsObject)
    (h : ∀ v, v? = some v → v.IsObject) : (v?.getD w).IsObject := by
  cases v? with
  | none => exact hw
  | some v => exact h v rfl

/-- What has a member is an object. -/
theorem exists_of_member?_eq_some {key : String} {v w : Json} (h : v.member? key = some w) :
    ∃ ms, v = .object ms ∧ find? key ms = some w := by
  obtain ⟨ms, hms, hfind⟩ := Option.bind_eq_some_iff.1 h
  cases v with
  | object members =>
    obtain rfl := Option.some.inj hms
    exact ⟨members, rfl, hfind⟩
  | null | bool | number | string | array => cases hms

end Json

/-- How many of the other parts stand before a part on the way through a document. -/
def Part.rank : Part → Nat
  | .document => 0
  | .data => 1
  | .task => 2
  | .entities => 3
  | .entity => 4

/-- The words for a part that is no object tell it from all others. -/
theorem Part.message_injective {p q : Part} (h : p.message = q.message) : p = q := by
  revert h
  cases p <;> cases q <;> decide

namespace CurrentTask

/-! ### The parts of a document -/

/-- The payload of a document: its member `data` if it has one, whatever that is, and the document
itself if it has none. -/
def payloadOf (doc : Json) : Json := (doc.member? "data").getD doc

/-- The section on tasks, which is empty if it is missing. -/
def sectionOf (doc : Json) : Json := ((payloadOf doc).member? "task").getD (.object [])

/-- The entities, which are empty if they are missing. -/
def entitiesOf (doc : Json) : Json := ((sectionOf doc).member? "entities").getD (.object [])

/-- A document **points at** a key: the section on tasks names it as that of the current task, and
it is not empty. -/
def PointsAt (doc : Json) (key : String) : Prop :=
  (sectionOf doc).member? "currentTaskId" = some (.string key) ∧ key ≠ ""

/-- **The parts that the way leads to**, each of which has to be an object. The entities are needed
only to find a key, and the entity only if it is there. -/
inductive Walked (doc : Json) : Part → Json → Prop where
  | document : Walked doc .document doc
  | data {v : Json} : doc.member? "data" = some v → Walked doc .data v
  | task {v : Json} : (payloadOf doc).member? "task" = some v → Walked doc .task v
  | entities {key : String} {v : Json} :
      PointsAt doc key → (sectionOf doc).member? "entities" = some v → Walked doc .entities v
  | entity {key : String} {v : Json} :
      PointsAt doc key → (entitiesOf doc).member? key = some v → Walked doc .entity v

/-- A document **resolves** to the members of a task, under the key that it points at: all that is
needed on the way is an object. -/
structure Resolves (doc : Json) (key : String) (entity : List (String × Json)) : Prop where
  /-- The document is an object. -/
  document : doc.IsObject
  /-- The payload is an object. -/
  payload : (payloadOf doc).IsObject
  /-- The section on tasks is an object. -/
  tasks : (sectionOf doc).IsObject
  /-- It names the key. -/
  points : PointsAt doc key
  /-- The entities are an object. -/
  entities : (entitiesOf doc).IsObject
  /-- They have the task under the key. -/
  entity : (entitiesOf doc).member? key = some (.object entity)

/-- **The title of a task**: a string as it is, fixed words if there is none, and any other value as
its compact text. -/
inductive Titled (entity : List (String × Json)) : String → Prop where
  | string {title : String} : Json.find? "title" entity = some (.string title) → Titled entity title
  | missing : Json.find? "title" entity = none → Titled entity "Unknown Task"
  | null : Json.find? "title" entity = some .null → Titled entity "Unknown Task"
  | printed {v : Json} : Json.find? "title" entity = some v → v ≠ .null → (∀ s, v ≠ .string s) →
      Titled entity v.compact

theorem titled_iff {entity : List (String × Json)} {title : String} :
    Titled entity title ↔ title = titleOf entity := by
  constructor
  · intro h
    cases h with
    | string h => rw [titleOf, h]
    | missing h => rw [titleOf, h]
    | null h => rw [titleOf, h]
    | @printed v h hnull hstring =>
      rw [titleOf, h]
      cases v with
      | null => exact absurd rfl hnull
      | string s => exact absurd rfl (hstring s)
      | bool | number | array | object => rfl
  · rintro rfl
    rw [titleOf]
    split
    · next h => exact .string h
    · next h => exact .missing h
    · next h => exact .null h
    · next v hstring hnull h => exact .printed h hnull hstring

/-! ### The steps of the way -/

theorem objectAt_eq_error {p : Part} {v : Json} (h : ¬ v.IsObject) : objectAt p v = .error p := by
  cases v with
  | object ms => exact absurd (Json.isObject_object ms) h
  | null | bool | number | string | array => rfl

/-- A payload that is an object is found. -/
theorem payload_eq_ok {doc : Json} {ms : List (String × Json)} (hdoc : doc.IsObject)
    (h : payloadOf doc = .object ms) : payload doc = .ok ms := by
  obtain ⟨root, rfl⟩ := hdoc
  have hroot : objectAt .document (.object root) = .ok root := rfl
  rw [payloadOf, Json.member?_object] at h
  rcases hdata : Json.find? "data" root with - | v
  · rw [hdata] at h
    obtain rfl := Json.object.inj h
    simp only [payload, hroot, hdata]
  · rw [hdata] at h
    simp only [payload, hroot, hdata]
    exact objectAt_eq_ok_iff.2 h

theorem sectionAt_eq_ok {p : Part} {key : String} {ms members : List (String × Json)}
    (h : ((Json.object ms).member? key).getD (.object []) = .object members) :
    sectionAt p key ms = .ok members := by
  rw [Json.member?_object] at h
  rw [sectionAt]
  rcases hfind : Json.find? key ms with - | v
  · rw [hfind] at h
    obtain rfl := Json.object.inj h
    rfl
  · rw [hfind] at h
    exact objectAt_eq_ok_iff.2 h

/-- The section on tasks is found in the payload. -/
theorem sectionAt_task_eq_ok {doc : Json} {ms task : List (String × Json)}
    (hpayload : payloadOf doc = .object ms) (h : sectionOf doc = .object task) :
    sectionAt .task "task" ms = .ok task := by
  refine sectionAt_eq_ok ?_
  rw [← hpayload]
  exact h

/-- The entities are found in the section on tasks. -/
theorem sectionAt_entities_eq_ok {doc : Json} {task entities : List (String × Json)}
    (hsection : sectionOf doc = .object task) (h : entitiesOf doc = .object entities) :
    sectionAt .entities "entities" task = .ok entities := by
  refine sectionAt_eq_ok ?_
  rw [← hsection]
  exact h

theorem sectionAt_eq_error {p : Part} {key : String} {ms : List (String × Json)} {v : Json}
    (h : Json.find? key ms = some v) (hv : ¬ v.IsObject) : sectionAt p key ms = .error p := by
  rw [sectionAt, h]
  exact objectAt_eq_error hv

theorem currentKey?_eq_some_iff {task : List (String × Json)} {key : String} :
    currentKey? task = some key ↔
      Json.find? "currentTaskId" task = some (.string key) ∧ key ≠ "" := by
  rw [currentKey?]
  split
  · next s h =>
    rw [h]
    by_cases hs : s = ""
    · simp only [hs, if_true, reduceCtorEq, false_iff, Option.some.injEq, Json.string.injEq]
      rintro ⟨rfl, hne⟩
      exact hne rfl
    · rw [if_neg hs, Option.some.injEq, Option.some.injEq, Json.string.injEq]
      refine ⟨?_, And.left⟩
      rintro rfl
      exact ⟨rfl, hs⟩
  · next hne =>
    simp only [reduceCtorEq, false_iff]
    rintro ⟨h, -⟩
    exact hne key h

/-- A payload that has a member is found. -/
theorem exists_payload {doc v : Json} {key : String} (h : (payloadOf doc).member? key = some v) :
    ∃ ms, payload doc = .ok ms ∧ payloadOf doc = .object ms ∧ Json.find? key ms = some v := by
  obtain ⟨ms, hms, hfind⟩ := Json.exists_of_member?_eq_some h
  refine ⟨ms, payload_eq_ok ?_ hms, hms, hfind⟩
  -- the payload is the document itself or one of its members
  rcases hdata : doc.member? "data" with - | w
  · exact ⟨ms, by rw [← hms, payloadOf, hdata, Option.getD_none]⟩
  · obtain ⟨root, hroot, -⟩ := Json.exists_of_member?_eq_some hdata
    exact ⟨root, hroot⟩

/-- The section on tasks is found in a document that points at a key. -/
theorem PointsAt.exists_section {doc : Json} {key : String} (h : PointsAt doc key) :
    ∃ ms task, payload doc = .ok ms ∧ sectionAt .task "task" ms = .ok task ∧
      sectionOf doc = .object task ∧ currentKey? task = some key := by
  obtain ⟨task, htask, hkey⟩ := Json.exists_of_member?_eq_some h.1
  rcases hmember : (payloadOf doc).member? "task" with - | v
  · -- a section that is missing points at nothing
    rw [sectionOf, hmember] at htask
    obtain rfl := Json.object.inj htask
    cases hkey
  · obtain ⟨ms, hpayload, hms, hfind⟩ := exists_payload hmember
    exact ⟨ms, task, hpayload, sectionAt_task_eq_ok hms htask, htask,
      currentKey?_eq_some_iff.2 ⟨hkey, h.2⟩⟩

/-- Behind the section on tasks of a document that points at a key, the key is resolved. -/
theorem PointsAt.extract_eq {doc : Json} {key : String} (h : PointsAt doc key) :
    ∃ task, sectionOf doc = .object task ∧ extract doc = resolve key task := by
  obtain ⟨ms, task, hms, htask, hsection, hkey⟩ := h.exists_section
  exact ⟨task, hsection, by simp only [extract, hms, htask, hkey]⟩

/-! ### What is found -/

/-- **A part that is no object is reported**, if the way leads to it. -/
theorem Walked.extract_eq {doc v : Json} {p : Part} (h : Walked doc p v) (hv : ¬ v.IsObject) :
    extract doc = .error p := by
  cases h with
  | document =>
    have hpayload : payload doc = .error .document := by rw [payload, objectAt_eq_error hv]
    rw [extract, hpayload]
  | data h =>
    obtain ⟨root, rfl, hfind⟩ := Json.exists_of_member?_eq_some h
    have hpayload : payload (.object root) = .error .data := by
      rw [payload, objectAt_eq_ok_iff.2 rfl]
      simp only [hfind, objectAt_eq_error hv]
    rw [extract, hpayload]
  | task h =>
    obtain ⟨ms, hms, -, hfind⟩ := exists_payload h
    simp only [extract, hms, sectionAt_eq_error hfind hv]
  | entities hpoints h =>
    obtain ⟨task, hsection, hextract⟩ := hpoints.extract_eq
    rw [hsection] at h
    rw [hextract, resolve, sectionAt_eq_error h hv]
  | entity hpoints h =>
    obtain ⟨task, hsection, hextract⟩ := hpoints.extract_eq
    obtain ⟨entities, hentities, hfind⟩ := Json.exists_of_member?_eq_some h
    rw [hextract, resolve, sectionAt_entities_eq_ok hsection hentities]
    simp only [hfind, objectAt_eq_error hv]

/-- A document that points at the key of an entity gives this task. -/
theorem PointsAt.extract_eq_ok {doc : Json} {key : String} {entity : List (String × Json)}
    (h : PointsAt doc key) (hentity : (entitiesOf doc).member? key = some (.object entity)) :
    extract doc = .ok ⟨titleOf entity, some key⟩ := by
  obtain ⟨ms, task, hms, htask, hsection, hkey⟩ := h.exists_section
  obtain ⟨entities, hentities, hfind⟩ := Json.exists_of_member?_eq_some hentity
  have htracks : Tracks doc key entity :=
    ⟨ms, task, entities, hms, htask, hkey, sectionAt_entities_eq_ok hsection hentities, hfind⟩
  exact htracks.extract_eq

/-- **A task that a document resolves to is read off it.** -/
theorem Resolves.extract_eq {doc : Json} {key : String} {entity : List (String × Json)}
    (h : Resolves doc key entity) : extract doc = .ok ⟨titleOf entity, some key⟩ :=
  h.points.extract_eq_ok h.entity

/-- A document whose parts are objects as far as they are needed, and which points at no key, is
idle: nothing is asked of the entities. -/
theorem extract_eq_idle_of_not_pointsAt {doc : Json} (hdoc : doc.IsObject)
    (hpayload : (payloadOf doc).IsObject) (htasks : (sectionOf doc).IsObject)
    (h : ∀ key, ¬ PointsAt doc key) : extract doc = .ok idle := by
  obtain ⟨ms, hms⟩ := hpayload
  obtain ⟨task, htask⟩ := htasks
  have hkey : currentKey? task = none := by
    refine Option.eq_none_iff_forall_ne_some.2 fun key hkey ↦ h key ?_
    rw [PointsAt, htask]
    exact currentKey?_eq_some_iff.1 hkey
  simp only [extract, payload_eq_ok hdoc hms, sectionAt_task_eq_ok hms htask, hkey]

/-- **What is neither refused nor resolved is idle.** -/
theorem extract_eq_idle {doc : Json} (hwalked : ∀ p v, Walked doc p v → v.IsObject)
    (hresolves : ∀ key entity, ¬ Resolves doc key entity) : extract doc = .ok idle := by
  have hdoc : doc.IsObject := hwalked _ _ .document
  have hpayload : (payloadOf doc).IsObject :=
    Json.isObject_getD hdoc fun v hv ↦ hwalked _ _ (.data hv)
  have htasks : (sectionOf doc).IsObject :=
    Json.isObject_getD (Json.isObject_object []) fun v hv ↦ hwalked _ _ (.task hv)
  by_cases hpoints : ∃ key, PointsAt doc key
  · obtain ⟨key, hkey⟩ := hpoints
    have hentities : (entitiesOf doc).IsObject :=
      Json.isObject_getD (Json.isObject_object []) fun v hv ↦ hwalked _ _ (.entities hkey hv)
    have hnone : (entitiesOf doc).member? key = none := by
      refine Option.eq_none_iff_forall_ne_some.2 fun v hv ↦ ?_
      obtain ⟨entity, rfl⟩ := hwalked _ _ (.entity hkey hv)
      exact hresolves key entity ⟨hdoc, hpayload, htasks, hkey, hentities, hv⟩
    obtain ⟨task, hsection, hextract⟩ := hkey.extract_eq
    obtain ⟨entities, hms⟩ := hentities
    rw [hms, Json.member?_object] at hnone
    rw [hextract, resolve, sectionAt_entities_eq_ok hsection hms]
    simp only [hnone]
  · exact extract_eq_idle_of_not_pointsAt hdoc hpayload htasks (not_exists.1 hpoints)

/-- **The three outcomes** of a document. -/
theorem extract_cases (doc : Json) :
    (∃ p v, Walked doc p v ∧ ¬ v.IsObject ∧ extract doc = .error p) ∨
      (∀ p v, Walked doc p v → v.IsObject) ∧
        ((∃ key entity, Resolves doc key entity ∧
            extract doc = .ok ⟨titleOf entity, some key⟩) ∨
          (∀ key entity, ¬ Resolves doc key entity) ∧ extract doc = .ok idle) := by
  by_cases hwalked : ∃ p v, Walked doc p v ∧ ¬ v.IsObject
  · obtain ⟨p, v, h, hv⟩ := hwalked
    exact Or.inl ⟨p, v, h, hv, h.extract_eq hv⟩
  · have hall : ∀ p v, Walked doc p v → v.IsObject := fun p v h ↦
      Classical.not_not.1 fun hv ↦ hwalked ⟨p, v, h, hv⟩
    refine Or.inr ⟨hall, ?_⟩
    by_cases hresolves : ∃ key entity, Resolves doc key entity
    · obtain ⟨key, entity, h⟩ := hresolves
      exact Or.inl ⟨key, entity, h, h.extract_eq⟩
    · have hnone : ∀ key entity, ¬ Resolves doc key entity := fun key entity h ↦
        hresolves ⟨key, entity, h⟩
      exact Or.inr ⟨hnone, extract_eq_idle hall hnone⟩

/-- **Extraction is the resolution of the document**, for every document:

* a key and a title are found exactly if the document resolves to a task under this key, and the
  title is that of the task;
* a part is reported exactly if it is the first one on the way that is no object, and the words for
  it tell it from the others;
* everything else is idle, and so is in particular a document that points at no key, whatever its
  entities are. -/
theorem extract_exact_resolution (doc : Json) :
    (∀ title key, extract doc = .ok ⟨title, some key⟩ ↔
      ∃ entity, Resolves doc key entity ∧ Titled entity title) ∧
    (∀ p, extract doc = .error p ↔
      (∃ v, Walked doc p v ∧ ¬ v.IsObject) ∧
        ∀ q v, Walked doc q v → q.rank < p.rank → v.IsObject) ∧
    (∀ p q : Part, p.message = q.message → p = q) ∧
    (extract doc = .ok idle ↔
      (∀ p v, Walked doc p v → v.IsObject) ∧ ∀ key entity, ¬ Resolves doc key entity) ∧
    ((∀ key, ¬ PointsAt doc key) → doc.IsObject → (payloadOf doc).IsObject →
      (sectionOf doc).IsObject → extract doc = .ok idle) := by
  refine ⟨fun title key ↦ ?_, fun p ↦ ?_, fun p q ↦ Part.message_injective, ?_,
    fun hnone hdoc hpayload htasks ↦ extract_eq_idle_of_not_pointsAt hdoc hpayload htasks hnone⟩
  · constructor
    · intro h
      rcases extract_cases doc with
        ⟨p, v, -, -, herror⟩ | ⟨-, ⟨key', entity, hres, hok⟩ | ⟨-, hidle⟩⟩
      · cases h.symm.trans herror
      · cases h.symm.trans hok
        exact ⟨entity, hres, titled_iff.2 rfl⟩
      · cases h.symm.trans hidle
    · rintro ⟨entity, hres, htitle⟩
      rw [titled_iff.1 htitle, hres.extract_eq]
  · constructor
    · intro h
      refine ⟨?_, fun q v hwalked hlt ↦ Classical.not_not.1 fun hv ↦ ?_⟩
      · rcases extract_cases doc with ⟨q, v, hwalked, hv, herror⟩ | ⟨-, ⟨_, _, -, hok⟩ | ⟨-, hidle⟩⟩
        · obtain rfl : p = q := Except.error.inj (h.symm.trans herror)
          exact ⟨v, hwalked, hv⟩
        · cases h.symm.trans hok
        · cases h.symm.trans hidle
      · -- only one part can be reported
        obtain rfl : p = q := Except.error.inj (h.symm.trans (hwalked.extract_eq hv))
        exact Nat.lt_irrefl _ hlt
    · rintro ⟨⟨v, hwalked, hv⟩, -⟩
      exact hwalked.extract_eq hv
  · constructor
    · intro h
      rcases extract_cases doc with ⟨p, v, -, -, herror⟩ | ⟨hall, ⟨_, _, -, hok⟩ | ⟨hnone, -⟩⟩
      · cases h.symm.trans herror
      · -- a task that is found has a key, and idle has none
        have hid := congrArg CurrentTask.id (Except.ok.inj (h.symm.trans hok))
        cases hid
      · exact ⟨hall, hnone⟩
    · rintro ⟨hall, hnone⟩
      exact extract_eq_idle hall hnone

end CurrentTask

end TaskStatus
