import TaskStatus.Proofs.ArgumentGrammar
import TaskStatus.Proofs.ExitStatus

/-!
# What diagnostics do to a run

Flags for diagnostics in front of arguments that are understood are understood with them: they are
choices of their own, which are compatible with any others and add to the verbosity as far as it is
counted (`Request.parse_replicate_append`). Everything else that is chosen stays, and so do the line
that is written and the exit status, **unless** telling is what fails: the backup that is found has
a time without a timestamp (`Setting.Undatable`). A run that tells nothing does not notice, and a run
with diagnostics breaks down.

So the runs with and without the flags differ in that case alone, and only if the arguments ask for
no diagnostics themselves (`Setting.run_replicate_verboseShort`).
-/

namespace TaskStatus

open Argument

/-- The short flag for diagnostics. -/
def Argument.verboseShort : Bytes := Bytes.ofText "-v"

namespace Choice

/-- The choice that the short flag for diagnostics makes. -/
def verboseOnce : Choice := .letters 1 Nat.one_pos

theorem written_verboseOnce : verboseOnce.written = [verboseShort] := by decide

theorem flatMap_written_replicate (k : Nat) :
    (List.replicate k verboseOnce).flatMap written = List.replicate k verboseShort := by
  induction k with
  | zero => rfl
  | succ k ih =>
    rw [List.replicate_succ, List.flatMap_cons, ih, written_verboseOnce]
    rfl

/-- Flags for diagnostics are compatible with any choices. -/
theorem Compatible.replicate_append {cs : List Choice} (h : Compatible cs) (k : Nat) :
    Compatible (List.replicate k verboseOnce ++ cs) := by
  have hwaybar : (List.replicate k verboseOnce).count .waybar = 0 :=
    List.count_eq_zero.2 fun hmem ↦ absurd (List.eq_of_mem_replicate hmem) (by decide)
  have hdirectory : (List.replicate k verboseOnce).countP (·.directory?.isSome) = 0 := by
    refine List.countP_eq_zero.2 fun c hc ↦ ?_
    rw [List.eq_of_mem_replicate hc]
    decide
  rw [Compatible, List.count_append, List.countP_append, hwaybar, hdirectory, Nat.zero_add,
    Nat.zero_add]
  exact h

theorem totalDiagnostics_replicate_append (k : Nat) (cs : List Choice) :
    totalDiagnostics (List.replicate k verboseOnce ++ cs) = totalDiagnostics cs + k := by
  induction k with
  | zero => rfl
  | succ k ih =>
    rw [List.replicate_succ, List.cons_append, totalDiagnostics, ih]
    exact Nat.add_comm 1 _

end Choice

/-- Flags for diagnostics add to the verbosity and leave the other options. -/
theorem Options.ofChoices_replicate_append (k : Nat) (cs : List Choice) :
    ofChoices (List.replicate k Choice.verboseOnce ++ cs) =
      { ofChoices cs with
        verbosity := min Request.maxVerbosity ((ofChoices cs).verbosity + k) } := by
  have hwaybar : decide (Choice.waybar ∈ List.replicate k Choice.verboseOnce ++ cs) =
      decide (Choice.waybar ∈ cs) := by
    refine decide_eq_decide.2 (List.mem_append.trans (or_iff_right fun hmem ↦ ?_))
    exact absurd (List.eq_of_mem_replicate hmem) (by decide)
  have hdirectory : (List.replicate k Choice.verboseOnce ++ cs).findSome? Choice.directory? =
      cs.findSome? Choice.directory? := by
    have hnone : (List.replicate k Choice.verboseOnce).findSome? Choice.directory? = none :=
      List.findSome?_eq_none_iff.2 fun c hc ↦ by
        rw [List.eq_of_mem_replicate hc]
        rfl
    rw [List.findSome?_append, hnone, Option.none_or]
  have hverbosity : min Request.maxVerbosity (Choice.totalDiagnostics cs + k) =
      min Request.maxVerbosity
        (min Request.maxVerbosity (Choice.totalDiagnostics cs) + k) := by
    omega
  rw [ofChoices, hwaybar, hdirectory, Choice.totalDiagnostics_replicate_append, hverbosity]
  rfl

namespace Request

/-- **Arguments that are understood are understood with any number of flags for diagnostics in front
of them**, and then ask for the same, told at greater length. -/
theorem parse_replicate_append {args : List Bytes} {o : Options} (h : parse args = .status o)
    (k : Nat) :
    parse (List.replicate k verboseShort ++ args) =
      .status { o with verbosity := min maxVerbosity (o.verbosity + k) } := by
  obtain ⟨cs, hcs, hrow, rfl⟩ := parse_eq_status_iff.1 h
  have hrow' : IsRow (List.replicate k Choice.verboseOnce ++ cs)
      (List.replicate k verboseShort ++ args) := by
    rw [IsRow, List.flatMap_append, Choice.flatMap_written_replicate]
    rcases hrow with rfl | rfl
    · exact Or.inl rfl
    · exact Or.inr (List.append_assoc _ _ _).symm
  rw [hrow'.parse_eq (hcs.replicate_append k), Options.ofChoices_replicate_append]

end Request

namespace Setting

variable (s : Setting)

/-- The backup that is found with some options **cannot be dated**: its time has no timestamp. -/
def Undatable (o : Options) : Prop :=
  ∃ dir b, s.environment.backupDirectory o.directory = some dir ∧
    Backup.find s.files dir = .ok (some b) ∧ b.modified.OutOfRange

theorem untellable_iff {o : Options} : s.Untellable o ↔ 0 < o.verbosity ∧ s.Undatable o := Iff.rfl

/-- What is left if the diagnostics fail. -/
theorem report_of_untellable {o : Options} (h : s.Untellable o) :
    (s.report o).exitCode = 101 ∧ (s.report o).output = "" := by
  rw [s.report_eq_broken_iff.2 h]
  exact ⟨rfl, rfl⟩

/-- **When diagnostics do not disturb the result**, for every setting, all arguments that are
understood and any number of flags for diagnostics in front of them: the arguments are understood
with the flags, and the run ends in the same way and writes the same, unless the arguments ask for
no diagnostics and the backup that is found cannot be dated. Then the run without the flags ends well,
and the one with them breaks down and writes nothing. -/
theorem run_replicate_verboseShort (s : Setting) (args : List Bytes) (o : Options) (k : Nat)
    (h : Request.parse args = .status o) (hk : 1 ≤ k) :
    let quiet := s.run args
    let told := s.run (List.replicate k verboseShort ++ args)
    Request.parse (List.replicate k verboseShort ++ args) =
        .status { o with verbosity := min Request.maxVerbosity (o.verbosity + k) } ∧
      ((told.exitCode = quiet.exitCode ∧ told.output = quiet.output) ↔
        ¬ (o.verbosity = 0 ∧ s.Undatable o)) ∧
      (o.verbosity = 0 → s.Undatable o →
        quiet.exitCode = 0 ∧ told.exitCode = 101 ∧ told.output = "") := by
  intro quiet told
  let more : Options := { o with verbosity := min Request.maxVerbosity (o.verbosity + k) }
  have hmore : Request.parse (List.replicate k verboseShort ++ args) = .status more :=
    Request.parse_replicate_append h k
  have hquiet : quiet = s.report o := s.run_of_reports (Or.inl h)
  have htold : told = s.report more := s.run_of_reports (Or.inl hmore)
  -- with the flags diagnostics are asked for, so they fail as soon as the time cannot be told
  have huntellable : s.Untellable more ↔ s.Undatable o := by
    have hpos : 0 < more.verbosity := by
      show 0 < min Request.maxVerbosity (o.verbosity + k)
      exact Nat.lt_min.2 ⟨by decide, by omega⟩
    exact s.untellable_iff.trans (and_iff_right hpos)
  rw [hquiet, htold]
  refine ⟨hmore, ?_, fun hv hun ↦ ?_⟩
  · by_cases hun : s.Undatable o
    · have hbroken := s.report_of_untellable (huntellable.2 hun)
      by_cases hv : o.verbosity = 0
      · have hfine := s.report_of_not_untellable (o := o) fun hall ↦ Nat.ne_of_gt hall.1 hv
        refine iff_of_false ?_ (not_not_intro ⟨hv, hun⟩)
        rw [hbroken.1, hfine.1]
        exact fun hsame ↦ absurd hsame.1 (by decide)
      · have hbroken' := s.report_of_untellable (o := o) ⟨Nat.pos_of_ne_zero hv, hun⟩
        refine iff_of_true ?_ fun hall ↦ hv hall.1
        exact ⟨hbroken.1.trans hbroken'.1.symm, hbroken.2.trans hbroken'.2.symm⟩
    · have hfine := s.report_of_not_untellable (mt huntellable.1 hun)
      have hfine' := s.report_of_not_untellable (o := o) fun hall ↦ hun hall.2
      refine iff_of_true ?_ fun hall ↦ hun hall.2
      exact ⟨hfine.1.trans hfine'.1.symm, hfine.2.trans hfine'.2.symm⟩
  · have hfine := s.report_of_not_untellable (o := o) fun hall ↦ Nat.ne_of_gt hall.1 hv
    exact ⟨hfine.1, s.report_of_untellable (huntellable.2 hun)⟩

/-- A tree with one backup, which is held in memory and was modified at some time. -/
def datedTree (modified : Instant) : FileTree :=
  FileTree.empty.applyAll [
    .link (Path.ofText "m") (Path.ofText "../../../../../../../../../../../../dev/shm"),
    .write (Path.ofText "m/year-262143/a.json") (Bytes.ofText
      ("\x7b\"task\":\x7b\"currentTaskId\":\"i\"," ++
        "\"entities\":\x7b\"i\":\x7b\"title\":\"T\"\x7d\x7d\x7d\x7d")) modified]

/-- One flag disturbs the result: a time in the year 262143, which no disk would store, cannot be
told. -/
theorem run_verboseShort_datedTree :
    let s : Setting := ⟨{}, (datedTree ⟨8210266876800, 0, by decide⟩).fileSystem, "nogit", none⟩
    let args := ["--backup-dir", "m/year-262143"].map Bytes.ofText
    (∃ o, Request.parse args = .status o) ∧
      ((s.run args).exitCode = 0 ∧ (s.run args).output = "SP: T\n") ∧
      ¬ ((s.run (List.replicate 1 verboseShort ++ args)).exitCode = (s.run args).exitCode ∧
        (s.run (List.replicate 1 verboseShort ++ args)).output = (s.run args).output) := by
  intro s args
  exact ⟨⟨_, rfl⟩, by decide +kernel, by decide +kernel⟩

/-- The same backup with arguments that ask for diagnostics themselves, and 300 flags more: all of
them are understood, and the result is no other. -/
theorem run_replicate_verboseShort_datedTree :
    let s : Setting := ⟨{}, (datedTree ⟨8210266876800, 0, by decide⟩).fileSystem, "nogit", none⟩
    let args := ["--waybar", "--backup-dir", "m/year-262143", "-v"].map Bytes.ofText
    Request.parse args = .status ⟨true, some (Path.ofText "m/year-262143"), 1⟩ ∧ 1 ≤ 300 ∧
      Request.parse (List.replicate 300 verboseShort ++ args) =
        .status ⟨true, some (Path.ofText "m/year-262143"), Request.maxVerbosity⟩ ∧
      (s.run (List.replicate 300 verboseShort ++ args)).exitCode = (s.run args).exitCode ∧
      (s.run (List.replicate 300 verboseShort ++ args)).output = (s.run args).output := by
  intro s args
  have hparse : Request.parse args = .status ⟨true, some (Path.ofText "m/year-262143"), 1⟩ := by
    decide +kernel
  obtain ⟨hmore, hsame, -⟩ := s.run_replicate_verboseShort args _ 300 hparse (by decide)
  exact ⟨hparse, by decide, hmore, hsame.2 fun hv ↦ absurd hv.1 (by decide)⟩

end Setting

end TaskStatus
