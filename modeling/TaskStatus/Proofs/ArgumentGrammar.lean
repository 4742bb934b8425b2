import Mathlib.Data.List.Basic
import TaskStatus.CommandLine

/-!
# The grammar of the arguments

Arguments are read from left to right, with the options that were gathered so far. Here they are
described without that reading, by what may be written: a row of **choices**, each in one of five
spellings, and behind them nothing, or two dashes, or an argument that asks for help or for the
version.

Three facts carry the description:

* `Argument.ofBytes` is exact on the shapes of single arguments (`Argument.Spells`), so nothing
  below it opens the comparison of bytes;
* what is gathered behind some choices is a function of these choices (`Options.ofChoices`), which
  is the invariant of the reading, and another choice either fits to them or makes the arguments
  unclear (`ofArguments_choice` for one choice, `ofArguments_choices` for a row of them);
* a row of choices can be taken off any arguments until none is left to take
  (`exists_choices_append`), and then the reading ends at once (`ofArguments_cases`).

Being compatible and the options of a row do not depend on its order, and so neither does what is
asked for.
-/

namespace TaskStatus

/-! ### What single arguments look like -/

/-- What can be shown in place of the status. -/
inductive Notice where
  /-- The help. -/
  | help
  /-- The version. -/
  | version

namespace Notice

/-- The long flag for a notice. -/
def flag : Notice → Bytes
  | .help => Argument.helpFlag
  | .version => Argument.versionFlag

/-- The letter for a notice. -/
def letter : Notice → UInt8
  | .help => Argument.helpLetter
  | .version => Argument.versionLetter

/-- What an argument looks like that asks for a notice. -/
def argument : Notice → Argument
  | .help => .help
  | .version => .version

/-- What arguments ask for of which one asks for a notice. -/
def request : Notice → Request
  | .help => .help
  | .version => .version

/-- An argument **asks for a notice** by the long flag, or by the letter behind a dash and any
number of letters for diagnostics, whatever follows that letter. -/
def AskedBy (q : Notice) (a : Bytes) : Prop :=
  a = q.flag ∨ ∃ n more,
    a = Argument.dash :: (List.replicate n Argument.verboseLetter ++ q.letter :: more)

theorem request_inj {q r : Notice} : q.request = r.request ↔ q = r := by
  cases q <;> cases r <;> simp [request]

theorem request_ne_status (q : Notice) (o : Options) : q.request ≠ .status o := by
  cases q <;> exact nofun

theorem request_ne_unclear (q : Notice) : q.request ≠ .unclear := by
  cases q <;> exact nofun

end Notice

namespace Argument

/-- The bytes that **spell** an argument. -/
inductive Spells : Argument → Bytes → Prop
  | waybar : Spells .waybar waybarFlag
  | verbose : Spells (.verbose 1) verboseFlag
  | letters {n : Nat} (h : 0 < n) : Spells (.verbose n) (dash :: List.replicate n verboseLetter)
  | directory {d : Bytes} (h : d ≠ []) : Spells (.directory d) (attachedFlag ++ d)
  | directoryNext : Spells .directoryNext directoryFlag
  | notice {q : Notice} {a : Bytes} (h : q.AskedBy a) : Spells q.argument a
  | stop : Spells .stop [dash, dash]

/-- Letters for diagnostics are counted. -/
theorem ofLetters_replicate_append (count n : Nat) (letters : Bytes) :
    ofLetters count (List.replicate n verboseLetter ++ letters) =
      ofLetters (count + n) letters := by
  induction n generalizing count with
  | zero => rfl
  | succ n ih =>
    show ofLetters (count + 1) (List.replicate n verboseLetter ++ letters) = _
    rw [ih, Nat.add_right_comm, Nat.add_assoc]

/-- What letters ask for is settled by the first one that is not for diagnostics. -/
theorem ofLetters_cases (count : Nat) (letters : Bytes) :
    ofLetters count letters = .unknown ∨
      (∃ n, letters = List.replicate n verboseLetter ∧ 0 < count + n ∧
        ofLetters count letters = .verbose (count + n)) ∨
      ∃ (q : Notice) (n : Nat) (more : Bytes),
        letters = List.replicate n verboseLetter ++ q.letter :: more ∧
          ofLetters count letters = q.argument := by
  induction letters generalizing count with
  | nil =>
    by_cases hc : count = 0
    · exact Or.inl (if_pos hc)
    · exact Or.inr (Or.inl ⟨0, rfl, Nat.pos_of_ne_zero hc, if_neg hc⟩)
  | cons b letters ih =>
    by_cases hv : b = verboseLetter
    · subst hv
      have hstep : ofLetters count (verboseLetter :: letters) = ofLetters (count + 1) letters := rfl
      rw [hstep]
      rcases ih (count + 1) with h | ⟨n, hl, hpos, h⟩ | ⟨q, n, more, hl, h⟩
      · exact Or.inl h
      · refine Or.inr (Or.inl ⟨n + 1, by rw [hl]; rfl, by omega, ?_⟩)
        rw [h, Nat.add_assoc, Nat.add_comm 1]
      · exact Or.inr (Or.inr ⟨q, n + 1, more, by rw [hl]; rfl, h⟩)
    · by_cases hh : b = Notice.help.letter
      · subst hh
        exact Or.inr (Or.inr ⟨.help, 0, letters, rfl, rfl⟩)
      · by_cases hV : b = Notice.version.letter
        · subst hV
          exact Or.inr (Or.inr ⟨.version, 0, letters, rfl, rfl⟩)
        · exact Or.inl ((if_neg hv).trans ((if_neg hh).trans (if_neg hV)))

/-- Behind a dash that no dash follows there are letters. -/
theorem ofBytes_dash_cons {b : UInt8} (hb : b ≠ dash) (letters : Bytes) :
    ofBytes (dash :: b :: letters) = ofLetters 0 (b :: letters) := by
  -- every long flag has a dash in second place
  have hne {flag : Bytes} (hflag : flag[1]? = some dash) : dash :: b :: letters ≠ flag := by
    rintro rfl
    exact hb (Option.some.inj hflag)
  have hprefix : attachedFlag.isPrefixOf? (dash :: b :: letters) = none := by
    refine Option.eq_none_iff_forall_ne_some.2 fun d hd ↦ ?_
    exact hne rfl (List.isPrefixOf?_eq_some_iff_append_eq.1 hd).symm
  rw [ofBytes, if_neg (hne (by decide)), if_neg (hne (by decide)), if_neg (hne (by decide)),
    if_neg (hne (by decide)), if_neg (hne (by decide)), if_neg (hne rfl), hprefix]
  exact if_pos rfl

/-- Letters behind a dash, of which those for diagnostics do not end the argument at once. -/
theorem ofBytes_dash_letters {n : Nat} {letters : Bytes}
    (h : (List.replicate n verboseLetter ++ letters).head? ≠ some dash)
    (hne : List.replicate n verboseLetter ++ letters ≠ []) :
    ofBytes (dash :: (List.replicate n verboseLetter ++ letters)) = ofLetters n letters := by
  obtain ⟨b, bs, hbs⟩ := List.exists_cons_of_ne_nil hne
  have hb : b ≠ dash := by
    rintro rfl
    exact h (congrArg List.head? hbs)
  rw [hbs, ofBytes_dash_cons hb, ← hbs, ofLetters_replicate_append, Nat.zero_add]

/-- **Arguments are told apart by their spelling.** -/
theorem Spells.ofBytes_eq {x : Argument} {a : Bytes} (h : Spells x a) : ofBytes a = x := by
  cases h with
  | waybar => decide
  | verbose => decide
  | @letters n h =>
    obtain ⟨n, rfl⟩ := Nat.exists_eq_succ_of_ne_zero (Nat.ne_of_gt h)
    have hlast : ofBytes (dash :: (List.replicate (n + 1) verboseLetter ++ [])) =
        ofLetters (n + 1) [] :=
      ofBytes_dash_letters (fun h ↦ absurd (Option.some.inj h) (by decide)) (by simp)
    rw [List.append_nil] at hlast
    rw [hlast]
    rfl
  | @directory d h =>
    have hne {flag : Bytes} (hflag : ¬ attachedFlag <+: flag) : attachedFlag ++ d ≠ flag := by
      rintro rfl
      exact hflag (List.prefix_append _ _)
    have hprefix : attachedFlag.isPrefixOf? (attachedFlag ++ d) = some d :=
      List.isPrefixOf?_eq_some_iff_append_eq.2 rfl
    rw [ofBytes.eq_def, if_neg (hne (by decide)), if_neg (hne (by decide)),
      if_neg (hne (by decide)), if_neg (hne (by decide)), if_neg (hne (by decide)),
      if_neg (hne (by decide)), hprefix]
    obtain ⟨b, d, rfl⟩ := List.exists_cons_of_ne_nil h
    rfl
  | directoryNext => decide
  | @notice q a h =>
    obtain rfl | ⟨n, more, rfl⟩ := h
    · cases q <;> decide
    · have hletters : ofBytes (dash :: (List.replicate n verboseLetter ++ q.letter :: more)) =
          ofLetters n (q.letter :: more) := by
        refine ofBytes_dash_letters (fun hdash ↦ ?_) (by simp)
        cases n with
        | zero => exact absurd (Option.some.inj hdash) (by cases q <;> decide)
        | succ n => exact absurd (Option.some.inj hdash) (by decide)
      rw [hletters]
      cases q <;> rfl
  | stop => decide

/-- An argument that is none of the known ones is the only one without a spelling. -/
theorem spells_ofBytes (a : Bytes) : ofBytes a = .unknown ∨ Spells (ofBytes a) a := by
  rw [ofBytes.eq_def]
  split
  · next h => exact Or.inr (h ▸ .waybar)
  split
  · next h => exact Or.inr (h ▸ .verbose)
  split
  · next h => exact Or.inr (h ▸ .directoryNext)
  split
  · next h => exact Or.inr (.notice (q := .help) (Or.inl h))
  split
  · next h => exact Or.inr (.notice (q := .version) (Or.inl h))
  split
  · next h => exact Or.inr (h ▸ .stop)
  rcases hd : attachedFlag.isPrefixOf? a with - | d
  · rcases a with - | ⟨b, letters⟩
    · exact Or.inl rfl
    · by_cases hb : b = dash
      · subst hb
        show ofLetters 0 letters = .unknown ∨ Spells (ofLetters 0 letters) _
        rcases ofLetters_cases 0 letters with h | ⟨n, hl, hpos, h⟩ | ⟨q, n, more, hl, h⟩
        · exact Or.inl h
        · rw [Nat.zero_add] at hpos h
          rw [h, hl]
          exact Or.inr (.letters hpos)
        · rw [h, hl]
          exact Or.inr (.notice (Or.inr ⟨n, more, rfl⟩))
      · exact Or.inl (if_neg hb)
  · have ha : attachedFlag ++ d = a := List.isPrefixOf?_eq_some_iff_append_eq.1 hd
    rw [← ha]
    rcases d with - | ⟨b, d⟩
    · exact Or.inl rfl
    · exact Or.inr (.directory (List.cons_ne_nil b d))

end Argument

/-! ### Choices -/

/-- One thing that is chosen on the command line, in one of the ways to write it. -/
inductive Choice where
  /-- The object for Waybar. -/
  | waybar
  /-- Diagnostics, by the long flag. -/
  | verbose
  /-- Diagnostics, by a number of letters behind one dash. -/
  | letters (n : Nat) (h : 0 < n)
  /-- A directory that is attached to its flag. -/
  | attached (d : Bytes) (h : d ≠ [])
  /-- A directory in an argument of its own behind its flag. It must not look like a flag; a single
  dash does not. -/
  | separate (d : Bytes) (h : d ≠ [] ∧ (d = [Argument.dash] ∨ ¬ [Argument.dash] <+: d))
  deriving DecidableEq

namespace Choice

/-- The arguments that a choice is written as. -/
def written : Choice → List Bytes
  | .waybar => [Argument.waybarFlag]
  | .verbose => [Argument.verboseFlag]
  | .letters n _ => [Argument.dash :: List.replicate n Argument.verboseLetter]
  | .attached d _ => [Argument.attachedFlag ++ d]
  | .separate d _ => [Argument.directoryFlag, d]

/-- The directory that is chosen, if it is one that is chosen. -/
def directory? : Choice → Option Path
  | .attached d _ | .separate d _ => some ⟨d⟩
  | .waybar | .verbose | .letters _ _ => none

/-- How many flags for diagnostics it has. -/
def diagnostics : Choice → Nat
  | .verbose => 1
  | .letters n _ => n
  | .waybar | .attached _ _ | .separate _ _ => 0

/-- How many flags for diagnostics some choices have together. -/
def totalDiagnostics : List Choice → Nat
  | [] => 0
  | c :: cs => c.diagnostics + totalDiagnostics cs

/-- Choices are **compatible** if the object for Waybar is chosen at most once, and so is a
directory. -/
def Compatible (cs : List Choice) : Prop :=
  cs.count .waybar ≤ 1 ∧ cs.countP (·.directory?.isSome) ≤ 1

instance (cs : List Choice) : Decidable (Compatible cs) := inferInstanceAs (Decidable (_ ∧ _))

theorem written_ne_nil (c : Choice) : c.written ≠ [] := by
  cases c <;> exact List.cons_ne_nil _ _

theorem totalDiagnostics_concat (cs : List Choice) (c : Choice) :
    totalDiagnostics (cs ++ [c]) = totalDiagnostics cs + c.diagnostics := by
  induction cs with
  | nil => exact (Nat.zero_add _).symm
  | cons d cs ih =>
    rw [List.cons_append, totalDiagnostics, totalDiagnostics, ih, Nat.add_assoc]

theorem totalDiagnostics_perm {cs ds : List Choice} (h : cs.Perm ds) :
    totalDiagnostics cs = totalDiagnostics ds := by
  induction h with
  | nil => rfl
  | cons c _ ih => rw [totalDiagnostics, totalDiagnostics, ih]
  | swap c d cs => exact Nat.add_left_comm _ _ _
  | trans _ _ ih ih' => exact ih.trans ih'

theorem compatible_nil : Compatible [] := ⟨Nat.zero_le 1, Nat.zero_le 1⟩

/-- What is compatible with more choices is so with fewer. -/
theorem Compatible.of_append {cs ds : List Choice} (h : Compatible (cs ++ ds)) : Compatible cs := by
  rw [Compatible, List.count_append, List.countP_append] at h
  exact ⟨by omega, by omega⟩

theorem compatible_perm {cs ds : List Choice} (h : cs.Perm ds) :
    Compatible cs ↔ Compatible ds := by
  rw [Compatible, Compatible, h.count_eq, h.countP_eq]

/-- One choice more is compatible with others, unless it chooses again what may be chosen once. -/
theorem compatible_concat_iff {cs : List Choice} (h : Compatible cs) (c : Choice) :
    Compatible (cs ++ [c]) ↔
      (c = .waybar → .waybar ∉ cs) ∧ (c.directory?.isSome → cs.findSome? directory? = none) := by
  have hwaybar : cs.count .waybar + [c].count .waybar ≤ 1 ↔ (c = .waybar → .waybar ∉ cs) := by
    rw [← List.count_eq_zero, List.count_singleton]
    by_cases hc : c = .waybar
    · simp [hc]
    · simp [hc, h.1]
  have hdirectory : cs.countP (·.directory?.isSome) + [c].countP (·.directory?.isSome) ≤ 1 ↔
      (c.directory?.isSome → cs.findSome? directory? = none) := by
    have hnone : cs.findSome? directory? = none ↔ cs.countP (·.directory?.isSome) = 0 := by
      simp [List.countP_eq_zero]
    rw [hnone, List.countP_singleton]
    by_cases hc : c.directory?.isSome
    · simp [hc]
    · simp [hc, h.2]
  rw [Compatible, List.count_append, List.countP_append, hwaybar, hdirectory]

end Choice

/-- The options that some choices make: the mode and the directory that are among them, and all the
diagnostics together, as far as they are counted. -/
def Options.ofChoices (cs : List Choice) : Options where
  waybar := .waybar ∈ cs
  directory := cs.findSome? Choice.directory?
  verbosity := min Request.maxVerbosity (Choice.totalDiagnostics cs)

namespace Options

/-- The options with one choice more. -/
def choose (o : Options) (c : Choice) : Options where
  waybar := o.waybar || c = .waybar
  directory := o.directory.or c.directory?
  verbosity := min Request.maxVerbosity (o.verbosity + c.diagnostics)

theorem verbosity_ofChoices_le (cs : List Choice) :
    (ofChoices cs).verbosity ≤ Request.maxVerbosity :=
  Nat.min_le_left _ _

/-- One choice more adds what it chooses. -/
theorem ofChoices_concat (cs : List Choice) (c : Choice) :
    ofChoices (cs ++ [c]) = (ofChoices cs).choose c := by
  have hwaybar : decide (Choice.waybar ∈ cs ++ [c]) =
      (decide (Choice.waybar ∈ cs) || decide (c = Choice.waybar)) := by
    simp [eq_comm]
  have hdirectory : (cs ++ [c]).findSome? Choice.directory? =
      (cs.findSome? Choice.directory?).or c.directory? := by
    rw [List.findSome?_append, List.findSome?_singleton]
  have hverbosity : min Request.maxVerbosity (Choice.totalDiagnostics (cs ++ [c])) =
      min Request.maxVerbosity
        (min Request.maxVerbosity (Choice.totalDiagnostics cs) + c.diagnostics) := by
    rw [Choice.totalDiagnostics_concat]
    omega
  rw [ofChoices, hwaybar, hdirectory, hverbosity]
  rfl

/-- The order of choices that are compatible does not matter. -/
theorem ofChoices_perm {cs ds : List Choice} (h : cs.Perm ds) (hcs : Choice.Compatible cs) :
    ofChoices cs = ofChoices ds := by
  have hwaybar : decide (Choice.waybar ∈ cs) = decide (Choice.waybar ∈ ds) :=
    decide_eq_decide.2 h.mem_iff
  -- at most one directory is chosen, and one has only one order
  have hdirectory : cs.filterMap Choice.directory? = ds.filterMap Choice.directory? := by
    have hperm := h.filterMap Choice.directory?
    have hlength : (cs.filterMap Choice.directory?).length ≤ 1 := by
      rw [List.length_filterMap_eq_countP]
      exact hcs.2
    match hfound : cs.filterMap Choice.directory?, hlength with
    | [], _ =>
      rw [hfound] at hperm
      exact hperm.nil_eq
    | [d], _ =>
      rw [hfound] at hperm
      exact List.singleton_perm.1 hperm
  rw [ofChoices, ofChoices, hwaybar, ← List.head?_filterMap, hdirectory, List.head?_filterMap,
    Choice.totalDiagnostics_perm h]

end Options

namespace Request

open Argument Choice Options

/-! ### Reading choices -/

theorem isValue_eq_true_iff {d : Bytes} :
    isValue d = true ↔ d ≠ [] ∧ (d = [dash] ∨ ¬ [dash] <+: d) := by
  rcases d with - | ⟨b, d⟩
  · simp [isValue]
  · have hprefix : [dash] <+: b :: d ↔ b = dash := by
      rw [List.cons_prefix_cons, eq_comm]
      exact and_iff_left (List.nil_prefix)
    simp [isValue, hprefix]

/-- **One choice** is added to the options, unless it has been made before and may be made once. -/
theorem ofArguments_written {o : Options} (ho : o.verbosity ≤ maxVerbosity) (c : Choice)
    (rest : List Bytes) :
    ofArguments o (c.written ++ rest) =
      if (c = .waybar ∧ o.waybar) ∨ (c.directory?.isSome ∧ o.directory.isSome) then .unclear
      else ofArguments (o.choose c) rest := by
  have hv : min maxVerbosity o.verbosity = o.verbosity := Nat.min_eq_right ho
  cases c with
  | waybar =>
    show ofArguments o (waybarFlag :: rest) = _
    simp only [ofArguments.eq_def _ (waybarFlag :: rest), Spells.waybar.ofBytes_eq]
    simp [choose, directory?, diagnostics, hv]
  | verbose =>
    show ofArguments o (verboseFlag :: rest) = _
    simp only [ofArguments.eq_def _ (verboseFlag :: rest), Spells.verbose.ofBytes_eq]
    simp [choose, directory?, diagnostics]
  | letters n hn =>
    show ofArguments o ((dash :: List.replicate n verboseLetter) :: rest) = _
    simp only [ofArguments.eq_def _ (_ :: rest), (Spells.letters hn).ofBytes_eq]
    simp [choose, directory?, diagnostics]
  | attached d hd =>
    show ofArguments o ((attachedFlag ++ d) :: rest) = _
    simp only [ofArguments.eq_def _ (_ :: rest), (Spells.directory hd).ofBytes_eq]
    rcases hdir : o.directory <;> simp [choose, directory?, diagnostics, hv, hdir]
  | separate d hd =>
    show ofArguments o (directoryFlag :: d :: rest) = _
    simp only [ofArguments.eq_def _ (_ :: d :: rest), Spells.directoryNext.ofBytes_eq,
      isValue_eq_true_iff.2 hd]
    rcases hdir : o.directory <;> simp [choose, directory?, diagnostics, hv, hdir]

/-- **One choice** behind others that are compatible is added to the options, or is in conflict with
the others. -/
theorem ofArguments_choice {cs : List Choice} (h : Compatible cs) (c : Choice)
    (rest : List Bytes) :
    ofArguments (ofChoices cs) (c.written ++ rest) =
      if Compatible (cs ++ [c]) then ofArguments (ofChoices (cs ++ [c])) rest else .unclear := by
  have hconflict : (c = .waybar ∧ (ofChoices cs).waybar) ∨
      (c.directory?.isSome ∧ (ofChoices cs).directory.isSome) ↔ ¬ Compatible (cs ++ [c]) := by
    have hwaybar : (ofChoices cs).waybar = true ↔ .waybar ∈ cs := decide_eq_true_iff
    have hdirectory : (ofChoices cs).directory = cs.findSome? directory? := rfl
    rw [compatible_concat_iff h, hwaybar, hdirectory,
      Option.isSome_iff_ne_none (o := cs.findSome? _)]
    simp only [not_and_or, Classical.not_imp, Classical.not_not, Ne]
  rw [ofArguments_written (verbosity_ofChoices_le cs), ofChoices_concat]
  by_cases hc : Compatible (cs ++ [c])
  · rw [if_pos hc, if_neg (mt hconflict.1 (not_not_intro hc))]
  · rw [if_neg hc, if_pos (hconflict.2 hc)]

/-- **A row of choices**, behind others. -/
theorem ofArguments_choices {cs : List Choice} (h : Compatible cs) (ds : List Choice)
    (rest : List Bytes) :
    ofArguments (ofChoices cs) (ds.flatMap written ++ rest) =
      if Compatible (cs ++ ds) then ofArguments (ofChoices (cs ++ ds)) rest else .unclear := by
  induction ds generalizing cs with
  | nil => simp [h]
  | cons d ds ih =>
    have hrow : cs ++ d :: ds = (cs ++ [d]) ++ ds := by simp
    rw [List.flatMap_cons, List.append_assoc, ofArguments_choice h, hrow]
    by_cases hd : Compatible (cs ++ [d])
    · rw [if_pos hd, ih hd]
    · rw [if_neg hd, if_neg (mt Compatible.of_append hd)]

/-- What arguments ask for that begin with a row of choices. -/
theorem parse_choices (cs : List Choice) (rest : List Bytes) :
    parse (cs.flatMap written ++ rest) =
      if Compatible cs then ofArguments (ofChoices cs) rest else .unclear :=
  ofArguments_choices compatible_nil cs rest

/-! ### The end of the choices -/

/-- Choices can be taken off any arguments until none is left to take. -/
theorem exists_choices_append (args : List Bytes) :
    ∃ (cs : List Choice) (rest : List Bytes), args = cs.flatMap written ++ rest ∧
      ∀ (c : Choice) (more : List Bytes), rest ≠ c.written ++ more := by
  induction hn : args.length using Nat.strongRecOn generalizing args with
  | _ n ih =>
    subst hn
    by_cases h : ∃ (c : Choice) (more : List Bytes), args = c.written ++ more
    · obtain ⟨c, more, rfl⟩ := h
      have hlt : more.length < (c.written ++ more).length := by
        rw [List.length_append]
        have := List.length_pos_iff.2 c.written_ne_nil
        omega
      obtain ⟨cs, rest, rfl, hrest⟩ := ih _ hlt more rfl
      exact ⟨c :: cs, rest, by rw [List.flatMap_cons, List.append_assoc], hrest⟩
    · exact ⟨[], args, rfl, fun c more hargs ↦ h ⟨c, more, hargs⟩⟩

/-- **The end of the choices** settles what is asked for. -/
theorem ofArguments_cases (o : Options) {rest : List Bytes}
    (h : ∀ (c : Choice) (more : List Bytes), rest ≠ c.written ++ more) :
    ((rest = [] ∨ rest = [[dash, dash]]) ∧ ofArguments o rest = .status o) ∨
      (∃ (q : Notice) (a : Bytes) (more : List Bytes), rest = a :: more ∧ q.AskedBy a ∧
        ofArguments o rest = q.request) ∨
      ofArguments o rest = .unclear := by
  rcases rest with - | ⟨a, more⟩
  · exact Or.inl ⟨Or.inl rfl, rfl⟩
  have hstep := ofArguments.eq_def o (a :: more)
  dsimp only at hstep
  rcases spells_ofBytes a with hx | hx
  · exact Or.inr (Or.inr (by rw [hstep, hx]))
  generalize ofBytes a = x at hx hstep
  cases hx with
  | waybar => exact absurd rfl (h .waybar more)
  | verbose => exact absurd rfl (h .verbose more)
  | @letters n hn => exact absurd rfl (h (.letters n hn) more)
  | @directory d hd => exact absurd rfl (h (.attached d hd) more)
  | directoryNext =>
    refine Or.inr (Or.inr ?_)
    rw [hstep]
    rcases more with - | ⟨d, more⟩
    · rfl
    · refine if_pos (Or.inr fun hd ↦ ?_)
      exact absurd rfl (h (.separate d (isValue_eq_true_iff.1 hd)) more)
  | @notice q _ ha =>
    refine Or.inr (Or.inl ⟨q, a, more, rfl, ha, ?_⟩)
    rw [hstep]
    cases q <;> rfl
  | stop =>
    by_cases hmore : more = []
    · subst hmore
      exact Or.inl ⟨Or.inr rfl, hstep⟩
    · exact Or.inr (Or.inr (hstep.trans (if_neg hmore)))

/-! ### Whole argument lists -/

/-- Arguments are a row of choices and nothing else, or two dashes behind it. -/
def IsRow (cs : List Choice) (args : List Bytes) : Prop :=
  args = cs.flatMap written ∨ args = cs.flatMap written ++ [[dash, dash]]

theorem IsRow.parse_eq {cs : List Choice} {args : List Bytes} (h : IsRow cs args)
    (hcs : Compatible cs) : parse args = .status (ofChoices cs) := by
  rcases h with rfl | rfl
  · rw [← List.append_nil (cs.flatMap written), parse_choices, if_pos hcs]
    rfl
  · rw [parse_choices, if_pos hcs, ofArguments.eq_def]
    simp only [Spells.stop.ofBytes_eq, if_true]

/-- Arguments ask for a notice: one of them does so behind a row of choices, and others may
follow. -/
def IsAsking (q : Notice) (cs : List Choice) (args : List Bytes) : Prop :=
  ∃ a rest, q.AskedBy a ∧ args = cs.flatMap written ++ a :: rest

/-- An argument behind compatible choices that asks for a notice is obeyed. -/
theorem IsAsking.parse_eq {q : Notice} {cs : List Choice} {args : List Bytes}
    (h : IsAsking q cs args) (hcs : Compatible cs) : parse args = q.request := by
  obtain ⟨a, rest, ha, rfl⟩ := h
  rw [parse_choices, if_pos hcs, ofArguments.eq_def]
  simp only [(Spells.notice ha).ofBytes_eq]
  cases q <;> rfl

/-- **What arguments may be**, unless they are unclear. -/
theorem parse_cases (args : List Bytes) :
    (∃ cs, Compatible cs ∧ IsRow cs args) ∨ (∃ q cs, Compatible cs ∧ IsAsking q cs args) ∨
      parse args = .unclear := by
  obtain ⟨cs, rest, rfl, hend⟩ := exists_choices_append args
  rw [parse_choices]
  by_cases hcs : Compatible cs
  · rw [if_pos hcs]
    rcases ofArguments_cases (ofChoices cs) hend with
      ⟨rfl | rfl, -⟩ | ⟨q, a, more, rfl, ha, -⟩ | h
    · exact Or.inl ⟨cs, hcs, Or.inl (List.append_nil _)⟩
    · exact Or.inl ⟨cs, hcs, Or.inr rfl⟩
    · exact Or.inr (Or.inl ⟨q, cs, hcs, a, more, ha, rfl⟩)
    · exact Or.inr (Or.inr h)
  · exact Or.inr (Or.inr (if_neg hcs))

theorem parse_eq_status_iff {args : List Bytes} {o : Options} :
    parse args = .status o ↔ ∃ cs, Compatible cs ∧ IsRow cs args ∧ o = ofChoices cs := by
  constructor
  · intro h
    rcases parse_cases args with ⟨cs, hcs, hrow⟩ | ⟨q, cs, hcs, hasking⟩ | hunclear
    · exact ⟨cs, hcs, hrow, Request.status.inj (h.symm.trans (hrow.parse_eq hcs))⟩
    · exact absurd ((hasking.parse_eq hcs).symm.trans h) (q.request_ne_status o)
    · cases h.symm.trans hunclear
  · rintro ⟨cs, hcs, hrow, rfl⟩
    exact hrow.parse_eq hcs

theorem parse_eq_request_iff {args : List Bytes} {q : Notice} :
    parse args = q.request ↔ ∃ cs, Compatible cs ∧ IsAsking q cs args := by
  constructor
  · intro h
    rcases parse_cases args with ⟨cs, hcs, hrow⟩ | ⟨r, cs, hcs, hasking⟩ | hunclear
    · exact absurd (h.symm.trans (hrow.parse_eq hcs)) (q.request_ne_status _)
    · obtain rfl : q = r := Notice.request_inj.1 (h.symm.trans (hasking.parse_eq hcs))
      exact ⟨cs, hcs, hasking⟩
    · exact absurd (h.symm.trans hunclear) q.request_ne_unclear
  · rintro ⟨cs, hcs, hasking⟩
    exact hasking.parse_eq hcs

theorem parse_eq_unclear_iff {args : List Bytes} :
    parse args = .unclear ↔
      ∀ cs, Compatible cs → ¬ IsRow cs args ∧ ∀ q, ¬ IsAsking q cs args := by
  constructor
  · intro h cs hcs
    refine ⟨fun hrow ↦ ?_, fun q hasking ↦ ?_⟩
    · cases h.symm.trans (hrow.parse_eq hcs)
    · exact absurd ((hasking.parse_eq hcs).symm.trans h) q.request_ne_unclear
  · intro hnone
    rcases parse_cases args with ⟨cs, hcs, hrow⟩ | ⟨q, cs, hcs, hasking⟩ | hunclear
    · exact absurd hrow (hnone cs hcs).1
    · exact absurd hasking ((hnone cs hcs).2 q)
    · exact hunclear

/-- The order of the choices does not matter, whatever stands behind them. -/
theorem parse_perm {cs ds : List Choice} (h : cs.Perm ds) (rest : List Bytes) :
    parse (ds.flatMap written ++ rest) = parse (cs.flatMap written ++ rest) := by
  rw [parse_choices, parse_choices]
  by_cases hcs : Compatible cs
  · rw [if_pos hcs, if_pos ((compatible_perm h).1 hcs), ofChoices_perm h hcs]
  · rw [if_neg hcs, if_neg (mt (compatible_perm h).2 hcs)]

/-- **The grammar of the arguments**, for every list of arguments:

* they ask for the status exactly if they are a row of compatible choices, with two dashes behind it
  or nothing, and then with the options that these choices make;
* they ask for help, or for the version, exactly if behind such a row stands an argument that asks
  for it, whatever follows it;
* all other arguments are unclear;
* the choices of a row may be written in any order, whatever stands behind them. -/
theorem parse_exact_grammar (args : List Bytes) :
    (∀ o, parse args = .status o ↔
      ∃ cs, Compatible cs ∧ IsRow cs args ∧ o = ofChoices cs) ∧
    (parse args = .help ↔ ∃ cs, Compatible cs ∧ IsAsking .help cs args) ∧
    (parse args = .version ↔ ∃ cs, Compatible cs ∧ IsAsking .version cs args) ∧
    (parse args = .unclear ↔
      ∀ cs, Compatible cs → ¬ IsRow cs args ∧ ∀ q, ¬ IsAsking q cs args) ∧
    ∀ (cs ds : List Choice) (rest : List Bytes), cs.Perm ds →
      parse (ds.flatMap written ++ rest) = parse (cs.flatMap written ++ rest) :=
  ⟨fun _ ↦ parse_eq_status_iff, parse_eq_request_iff (q := .help),
    parse_eq_request_iff (q := .version), parse_eq_unclear_iff,
    fun _ _ rest h ↦ parse_perm h rest⟩

/-- Letters are counted, and a directory may stand behind them. -/
example : parse (["-vv", "--backup-dir", "/tmp/x"].map Bytes.ofText) =
    .status ⟨false, some (Path.ofText "/tmp/x"), 2⟩ := by decide

end Request

end TaskStatus
