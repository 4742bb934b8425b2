import TaskStatus.FileTree.Change
import TaskStatus.Proofs.Runs

/-!
# When a run ends well

A run does not always end with exit status zero. There are exactly two ways to break down, and they
exclude each other: the arguments are lost, or they are understood, ask for diagnostics, and the
backup that is found has a time that cannot be told. Arguments that are replaced never ask for
diagnostics, so the second way is open to understood ones only.

Nothing else matters: not the environment, nor the content of any file, nor whether standard output
can be written.
-/

namespace TaskStatus

theorem Outcome.exitCode_eq_zero_iff {r : Outcome} : r.exitCode = 0 ↔ r ≠ .broken := by
  cases r <;> simp [exitCode]

namespace Setting

variable (s : Setting)

theorem report_eq_broken_iff {o : Options} : s.report o = .broken ↔ s.Untellable o := by
  rcases s.report_cases o with ⟨h, hr⟩ | ⟨h, events, hr⟩ <;> simp [h, hr]

/-- Options that stand in for arguments can always be reported with. -/
theorem not_untellable_of_fallback {args : List Bytes} {o : Options}
    (h : Options.fallback args = some o) : ¬ s.Untellable o := by
  rintro ⟨hv, -⟩
  rw [Options.verbosity_of_fallback_eq_some h] at hv
  exact Nat.lt_irrefl 0 hv

/-- **The two ways to break down.** -/
theorem run_eq_broken_iff {args : List Bytes} :
    s.run args = .broken ↔ Lost args ∨ ∃ o, Request.parse args = .status o ∧ s.Untellable o := by
  rcases s.run_cases args with ⟨o, ho, hr⟩ | ⟨hreq, hr⟩ | ⟨hreq, hr⟩ | ⟨hlost, hr⟩
  · rw [hr, s.report_eq_broken_iff]
    rcases ho with hreq | ⟨hreq, hf⟩
    · simp [Lost, hreq]
    · refine iff_of_false (s.not_untellable_of_fallback hf) ?_
      rintro (⟨-, hlost⟩ | ⟨o', ho', -⟩)
      · have hnone : Options.fallback args = none := Options.fallback_eq_none_iff.2 hlost
        exact absurd (hf.symm.trans hnone) (Option.some_ne_none o)
      · have hboth := hreq.symm.trans ho'
        cases hboth
  · rw [hr]
    simp [print, Lost, hreq]
  · rw [hr]
    simp [print, Lost, hreq]
  · exact iff_of_true hr (Or.inl hlost)

/-- **When the exit status is zero**: unless the arguments are lost, or they ask for diagnostics of
a backup whose time is out of range; and then the run ends with exit status 101 and writes
nothing. -/
theorem run_exitCode_eq_zero_iff (s : Setting) (args : List Bytes) :
    ((s.run args).exitCode = 0 ↔
      ¬ Lost args ∧ ∀ o, Request.parse args = .status o → ¬ s.Untellable o) ∧
    ((s.run args).exitCode ≠ 0 → (s.run args).exitCode = 101 ∧ (s.run args).output = "") := by
  constructor
  · rw [Outcome.exitCode_eq_zero_iff, Ne, s.run_eq_broken_iff]
    simp
  · intro h
    have hbroken : s.run args = .broken :=
      Classical.not_not.1 fun hr ↦ h (Outcome.exitCode_eq_zero_iff.2 hr)
    rw [hbroken]
    exact ⟨rfl, rfl⟩

/-- One argument that is no text, in an empty tree, and diagnostics of a backup in memory that was
modified in the year 262143: both runs break down. -/
theorem exitCode_ne_zero_of_lost_or_untellable :
    let far : Change := .write (Path.ofText "/dev/shm/b/a.json") [] ⟨8210266876800, 0, by decide⟩
    (run ⟨{}, FileTree.empty.fileSystem, "nogit", none⟩ [[0xFF]]).exitCode ≠ 0 ∧
      (run ⟨{}, (FileTree.empty.apply far).fileSystem, "nogit", none⟩
        (["-v", "--backup-dir", "/dev/shm/b"].map Bytes.ofText)).exitCode ≠ 0 := by
  decide +kernel

end Setting

end TaskStatus
