import TaskStatus.FileTree.Change
import TaskStatus.Proofs.Runs

/-!
# Arguments that are replaced

Arguments that are not understood are not refused: the status is reported with options that stand in
for them. Of the arguments these options know the first one only, and of that one only whether it is
exactly the flag for Waybar (`Options.fallback_eq_some_iff`). So a run with such arguments is a run
with that flag alone or with no arguments at all (`run_eq_run_plain`): it writes the same, tells the
same and ends the same, and nothing else that was chosen before or behind the mistake is left of it.
-/

namespace TaskStatus

open Argument

/-- **What stands in for arguments** whose first one is text, if there is one. -/
theorem Options.fallback_eq_some_iff {args : List Bytes} {o : Options} :
    fallback args = some o ↔
      (∀ a ∈ args.head?, a.text? ≠ none) ∧ o = { waybar := args.head? = some waybarFlag } := by
  cases args with
  | nil => simp [fallback, eq_comm]
  | cons a rest =>
    rcases htext : a.text? with - | text
    · simp [fallback, htext]
    · simp [fallback, htext, eq_comm]

/-- Arguments that ask for nothing else are not understood. -/
theorem Request.eq_unclear {r : Request} (hstatus : ∀ o, r ≠ .status o) (hhelp : r ≠ .help)
    (hversion : r ≠ .version) : r = .unclear := by
  cases r with
  | status o => exact absurd rfl (hstatus o)
  | help => exact absurd rfl hhelp
  | version => exact absurd rfl hversion
  | unclear => rfl

/-- The plain arguments that are left of others: the flag for Waybar if it comes first. -/
def plainArguments (args : List Bytes) : List Bytes :=
  if args.head? = some waybarFlag then [waybarFlag] else []

/-- Plain arguments are understood, and choose the mode and nothing else. -/
theorem parse_plainArguments (args : List Bytes) :
    Request.parse (plainArguments args) = .status { waybar := args.head? = some waybarFlag } := by
  by_cases h : args.head? = some waybarFlag
  · rw [plainArguments, if_pos h, decide_eq_true h]
    rfl
  · rw [plainArguments, if_neg h, decide_eq_false h]
    rfl

namespace Setting

/-- **A run with arguments that are not understood is a plain run**, in every environment, over
every file system and for every standard output. If they ask for neither a report nor the help nor
the version and the first of them is text, then

* the run is that with the flag for Waybar alone if this is the first argument, and otherwise that
  with no arguments: in its exit status, in what it writes and in what it tells;
* whatever else follows the first argument, the run is the same as long as that is not understood
  either. -/
theorem run_eq_run_plain (s : Setting) (args : List Bytes)
    (hstatus : ∀ o, Request.parse args ≠ .status o) (hhelp : Request.parse args ≠ .help)
    (hversion : Request.parse args ≠ .version) (htext : ∀ a ∈ args.head?, a.text? ≠ none) :
    s.run args = s.run (if args.head? = some waybarFlag then [waybarFlag] else []) ∧
      ∀ args', args'.head? = args.head? → Request.parse args' = .unclear →
        s.run args' = s.run args := by
  -- a run with other arguments and the same first one reports with the same options
  have hplain : ∀ args', args'.head? = args.head? → Request.parse args' = .unclear →
      s.run args' = s.run (plainArguments args) := by
    intro args' hhead hunclear
    have hreports : Reports args' { waybar := args.head? = some waybarFlag } :=
      Or.inr ⟨hunclear, Options.fallback_eq_some_iff.2 (by rw [hhead]; exact ⟨htext, rfl⟩)⟩
    rw [s.run_of_reports hreports, s.run_of_reports (Or.inl (parse_plainArguments args))]
  have hself := hplain args rfl (Request.eq_unclear hstatus hhelp hversion)
  exact ⟨hself, fun args' hhead hunclear ↦ (hplain args' hhead hunclear).trans hself.symm⟩

/-- Diagnostics, a directory and the flag for Waybar are chosen before the mistake and behind it,
and no trace of them is left. -/
theorem run_eq_run_plain_of_repeated :
    let s : Setting := ⟨{}, FileTree.empty.fileSystem, "nogit", none⟩
    let late := ["-v", "--backup-dir", "b", "--waybar", "--waybar"].map Bytes.ofText
    let early := ["--waybar", "-vv", "--backup-dir=b", "--waybar"].map Bytes.ofText
    s.run late = s.run [] ∧ s.run early = s.run [waybarFlag] := by
  intro s late early
  have hlate : Request.parse late = .unclear := by decide +kernel
  have hearly : Request.parse early = .unclear := by decide +kernel
  have hplain := (s.run_eq_run_plain late (by simp [hlate]) (by simp [hlate]) (by simp [hlate])
    (by decide +kernel)).1
  have hwaybar := (s.run_eq_run_plain early (by simp [hearly]) (by simp [hearly])
    (by simp [hearly]) (by decide +kernel)).1
  exact ⟨hplain, hwaybar⟩

end Setting

end TaskStatus
