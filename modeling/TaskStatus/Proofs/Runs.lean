import TaskStatus.Proofs.TimestampRange
import TaskStatus.Run

/-!
# The ways a run goes

A run reports the status, shows the help or the version, or is lost because its arguments are
neither understood nor text. Reporting is the same for arguments that are understood and for
arguments that are replaced (`Reports`), and it has one way to fail: diagnostics that are asked for
and have to show the time of a backup which is out of range (`Untellable`).

`run_cases` and `report_cases` say this once; what is claimed about runs is read off them.
-/

namespace TaskStatus

/-- Arguments **report** the status with some options: they ask for them, or they are not understood
and these options stand in for them. -/
def Reports (args : List Bytes) (o : Options) : Prop :=
  Request.parse args = .status o ∨
    (Request.parse args = .unclear ∧ Options.fallback args = some o)

/-- Arguments are **lost**: they are not understood, and the first of them is no text. -/
def Lost (args : List Bytes) : Prop :=
  Request.parse args = .unclear ∧ ∃ a rest, args = a :: rest ∧ a.text? = none

theorem Options.fallback_eq_none_iff {args : List Bytes} :
    fallback args = none ↔ ∃ a rest, args = a :: rest ∧ a.text? = none := by
  cases args with
  | nil => simp [fallback]
  | cons a rest => simp [fallback]

/-- Options that stand in for arguments ask for no diagnostics. -/
theorem Options.verbosity_of_fallback_eq_some {args : List Bytes} {o : Options}
    (h : fallback args = some o) : o.verbosity = 0 := by
  cases args with
  | nil =>
    cases h
    rfl
  | cons a rest =>
    rw [fallback] at h
    split at h
    · cases h
      rfl
    · cases h

/-- At most one set of options is reported with. -/
theorem Reports.unique {args : List Bytes} {o o' : Options} (h : Reports args o)
    (h' : Reports args o') : o = o' := by
  -- arguments that are understood are not replaced, so the ways to report do not mix
  rcases h with h | ⟨h, hf⟩ <;> rcases h' with h' | ⟨h', hf'⟩
  · exact Request.status.inj (h.symm.trans h')
  · have hboth := h.symm.trans h'
    cases hboth
  · have hboth := h.symm.trans h'
    cases hboth
  · exact Option.some.inj (hf.symm.trans hf')

namespace Setting

variable (s : Setting)

theorem run_of_reports {args : List Bytes} {o : Options} (h : Reports args o) :
    s.run args = s.report o := by
  rcases h with h | ⟨h, hf⟩
  · rw [run, h]
  · simp only [run, h, hf]

/-- **The ways a run goes.** -/
theorem run_cases (args : List Bytes) :
    (∃ o, Reports args o ∧ s.run args = s.report o) ∨
      (Request.parse args = .help ∧ s.run args = s.print helpText) ∨
      (Request.parse args = .version ∧ s.run args = s.print (versionText s.stamp)) ∨
      (Lost args ∧ s.run args = .broken) := by
  rcases hreq : Request.parse args with o | - | - | -
  · exact Or.inl ⟨o, Or.inl hreq, s.run_of_reports (Or.inl hreq)⟩
  · exact Or.inr (Or.inl ⟨rfl, by rw [run, hreq]⟩)
  · exact Or.inr (Or.inr (Or.inl ⟨rfl, by rw [run, hreq]⟩))
  · rcases hf : Options.fallback args with - | o
    · refine Or.inr (Or.inr (Or.inr ⟨⟨hreq, Options.fallback_eq_none_iff.1 hf⟩, ?_⟩))
      simp only [run, hreq, hf]
    · exact Or.inl ⟨o, Or.inr ⟨hreq, hf⟩, s.run_of_reports (Or.inr ⟨hreq, hf⟩)⟩

/-! ### Reporting -/

/-- Diagnostics **cannot be told**: they are asked for, and the backup that is found was last
modified out of the range of timestamps. -/
def Untellable (o : Options) : Prop :=
  0 < o.verbosity ∧ ∃ dir b, s.environment.backupDirectory o.directory = some dir ∧
    Backup.find s.files dir = .ok (some b) ∧ b.modified.OutOfRange

/-- Of the outcomes of a look-up only a backup may be impossible to tell. -/
theorem ofLookup?_eq_none_iff {dir : Path} {r : Except LookupError (Option Backup)} :
    Event.ofLookup? dir r = none ↔ ∃ b, r = .ok (some b) ∧ b.modified.OutOfRange := by
  rcases r with e | (- | b)
  · simp [Event.ofLookup?]
  · simp [Event.ofLookup?]
  · simp [Event.ofLookup?, Instant.rfc3339?_eq_none_iff]

theorem diagnostics?_eq_none_iff {o : Options} : s.diagnostics? o = none ↔ s.Untellable o := by
  rw [diagnostics?, Untellable]
  split
  · next h => simp [h]
  · next h =>
    rw [and_iff_right (Nat.pos_of_ne_zero h)]
    rcases s.environment.backupDirectory o.directory with - | dir
    · simp [Event.ofStatus?]
    · simp [Event.ofStatus?, ofLookup?_eq_none_iff]

/-- **The ways a report goes**: it breaks down because of its diagnostics, or it writes the line
with the status, unless nothing can be written. -/
theorem report_cases (o : Options) :
    (s.Untellable o ∧ s.report o = .broken) ∨
      (¬ s.Untellable o ∧ ∃ events, s.report o =
        .finished (if s.fault.isSome then "" else s.line o.directory o.mode ++ "\n") events) := by
  rw [← diagnostics?_eq_none_iff, report]
  rcases s.diagnostics? o with - | events
  · exact Or.inl ⟨rfl, rfl⟩
  · refine Or.inr ⟨by simp, ?_⟩
    rcases s.fault with - | e
    · exact ⟨events, rfl⟩
    · exact ⟨events ++ [.writeFailed e], rfl⟩

/-- What is written and how the run ends, if the diagnostics do not fail. -/
theorem report_of_not_untellable {o : Options} (h : ¬ s.Untellable o) :
    (s.report o).exitCode = 0 ∧
      (s.report o).output =
        if s.fault.isSome then "" else s.line o.directory o.mode ++ "\n" := by
  rcases s.report_cases o with ⟨hun, -⟩ | ⟨-, events, hr⟩
  · exact absurd hun h
  · rw [hr]
    exact ⟨rfl, rfl⟩

end Setting

end TaskStatus
