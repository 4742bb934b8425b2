import TaskStatus.Task.Extract

/-!
# The tracked task of a document

Reading a document takes up to five steps, each of which may stop at a part that is not an object.
`Tracks` names the one way to go through all of them: the document leads to the key of a task and to
the members of that task. `extract_eq_ok` says that a document which is read without error is either
one that tracks a task or one whose outcome is idle, so an outcome without a key is `idle` and has
no other title.
-/

namespace TaskStatus.CurrentTask

theorem objectAt_eq_ok_iff {p : Part} {v : Json} {ms : List (String × Json)} :
    objectAt p v = .ok ms ↔ v = .object ms := by
  rcases v with - | - | - | - | - | vs <;> simp [objectAt, Json.members?]

/-- A document **tracks** a task: the section on tasks of its payload names a key, and under that
key the entities hold an object. -/
def Tracks (doc : Json) (key : String) (entity : List (String × Json)) : Prop :=
  ∃ ms task entities, payload doc = .ok ms ∧ sectionAt .task "task" ms = .ok task ∧
    currentKey? task = some key ∧ sectionAt .entities "entities" task = .ok entities ∧
    Json.find? key entities = some (.object entity)

/-- A tracked task is what is read off the document. -/
theorem Tracks.extract_eq {doc : Json} {key : String} {entity : List (String × Json)}
    (h : Tracks doc key entity) : extract doc = .ok ⟨titleOf entity, some key⟩ := by
  obtain ⟨ms, task, entities, hms, htask, hkey, hentities, hentity⟩ := h
  simp only [extract, hms, htask, hkey, resolve, hentities, hentity, objectAt, Json.members?]

/-- Resolving a key gives the task under it, or nothing if there is none. -/
theorem resolve_eq_ok {key : String} {task : List (String × Json)} {t : CurrentTask}
    (h : resolve key task = .ok t) :
    (∃ entities entity, sectionAt .entities "entities" task = .ok entities ∧
      Json.find? key entities = some (.object entity) ∧ t = ⟨titleOf entity, some key⟩) ∨
      t = idle := by
  rw [resolve] at h
  rcases hentities : sectionAt .entities "entities" task with p | entities
  · rw [hentities] at h
    cases h
  · rw [hentities] at h
    rcases hentity : Json.find? key entities with - | v
    · simp only [hentity] at h
      cases h
      exact Or.inr rfl
    · simp only [hentity] at h
      rcases hv : objectAt .entity v with p | entity
      · rw [hv] at h
        cases h
      · rw [hv] at h
        cases h
        rw [objectAt_eq_ok_iff] at hv
        exact Or.inl ⟨entities, entity, rfl, hv ▸ hentity, rfl⟩

/-- **A document that is read without error** tracks the task that is read off it, or its outcome is
idle. -/
theorem extract_eq_ok {doc : Json} {t : CurrentTask} (h : extract doc = .ok t) :
    (∃ key entity, Tracks doc key entity ∧ t = ⟨titleOf entity, some key⟩) ∨ t = idle := by
  -- every step that stops the reading leaves an error, and a missing key the idle outcome
  rw [extract] at h
  rcases hms : payload doc with p | ms
  · rw [hms] at h
    cases h
  · rw [hms] at h
    rcases htask : sectionAt .task "task" ms with p | task
    · simp only [htask] at h
      cases h
    · simp only [htask] at h
      rcases hkey : currentKey? task with - | key
      · rw [hkey] at h
        cases h
        exact Or.inr rfl
      · rw [hkey] at h
        rcases resolve_eq_ok h with ⟨entities, entity, hentities, hentity, rfl⟩ | rfl
        · exact Or.inl ⟨key, entity, ⟨ms, task, entities, hms, htask, hkey, hentities, hentity⟩, rfl⟩
        · exact Or.inr rfl

theorem parse_eq_ok_iff {text : String} {t : CurrentTask} :
    parse text = .ok t ↔ ∃ doc, Json.parse text = .ok doc ∧ extract doc = .ok t := by
  rw [parse]
  rcases Json.parse text with e | doc
  · simp
  · show (extract doc).mapError TextError.misshapen = .ok t ↔ _
    constructor
    · intro h
      refine ⟨doc, rfl, ?_⟩
      rcases hextract : extract doc with p | s
      · rw [hextract] at h
        cases h
      · rw [hextract] at h
        cases h
        rfl
    · rintro ⟨_, ⟨⟩, hextract⟩
      rw [hextract]
      rfl

/-- **Without a key there is only one outcome** of a text that is understood. -/
theorem eq_idle_of_parse_eq_ok {text : String} {t : CurrentTask} (h : parse text = .ok t)
    (hid : t.id = none) : t = idle := by
  obtain ⟨doc, -, hdoc⟩ := parse_eq_ok_iff.1 h
  rcases extract_eq_ok hdoc with ⟨key, entity, -, rfl⟩ | rfl
  · cases hid
  · rfl

end TaskStatus.CurrentTask
