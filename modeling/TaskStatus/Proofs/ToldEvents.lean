import TaskStatus.Proofs.LegibleFailures
import TaskStatus.Proofs.TextMeaning
import TaskStatus.Proofs.WaybarOutput

/-!
# The log tells what happened

An event is told exactly if it took place (`Setting.Tells`), in the order of the stages of a run
(`Event.stage`): which directory is looked into, what the look-up found, whether the backup that was
chosen gives no task, and whether the status could be written. Each stage is told at most once, so
the log is determined by what took place.

Two things are computed twice, and the log agrees with both: the look-up that is told is the one
that the status comes from, and a backup that is told to give no task is the one that the line
reports, in the same words.

The events are lines of text as long as the names are legible, and telling does not fail as long as
the times have timestamps; both are asked for only where they are needed.
-/

namespace TaskStatus

/-! ### What takes place -/

/-- **Why a file gives no task**: it cannot be read, it holds no text, the text is not JSON, or a
part of the document is no object. -/
inductive CurrentTask.Refuses (fs : FileSystem) (path : Path) : FileError → Prop where
  | unread {e : IoError} : fs.read path = .error e → Refuses fs path (.unreadable e)
  | notText {content : Bytes} :
      fs.read path = .ok content → content.text? = none → Refuses fs path (.unreadable .notText)
  | malformed {content : Bytes} {text : String} {e : Json.SyntaxError} :
      fs.read path = .ok content → content.text? = some text → Json.parse text = .error e →
      Refuses fs path (.text (.malformed e))
  | misshapen {content : Bytes} {text : String} {doc : Json} {p : Part} :
      fs.read path = .ok content → content.text? = some text → Json.parse text = .ok doc →
      extract doc = .error p → Refuses fs path (.text (.misshapen p))

theorem CurrentTask.parse_eq_error_iff {text : String} {e : TextError} :
    parse text = .error e ↔ (∃ f, Json.parse text = .error f ∧ e = .malformed f) ∨
      ∃ doc p, Json.parse text = .ok doc ∧ extract doc = .error p ∧ e = .misshapen p := by
  rcases hjson : Json.parse text with f | doc
  · rw [parse_eq_of_json_eq_error hjson]
    simp [eq_comm]
  · rw [parse_eq_of_json_eq_ok hjson]
    rcases hextract : extract doc with p | t
    · simp [hextract, Except.mapError, eq_comm]
    · simp [hextract, Except.mapError]

theorem CurrentTask.ofFile_eq_error_iff {fs : FileSystem} {path : Path} {e : FileError} :
    ofFile fs path = .error e ↔ Refuses fs path e := by
  constructor
  · intro h
    rcases hread : fs.read path with f | content
    · rw [ofFile, hread] at h
      obtain rfl := Except.error.inj h
      exact .unread hread
    · rw [ofFile_of_read_eq_ok hread] at h
      rcases ofBytes_cases content with
        ⟨htext, ho⟩ | ⟨text, f, htext, hparse, ho⟩ | ⟨text, t, -, -, ho⟩
      · obtain rfl := Except.error.inj (ho.symm.trans h)
        exact .notText hread htext
      · obtain rfl := Except.error.inj (ho.symm.trans h)
        rcases parse_eq_error_iff.1 hparse with ⟨f, hjson, rfl⟩ | ⟨doc, p, hjson, hextract, rfl⟩
        · exact .malformed hread htext hjson
        · exact .misshapen hread htext hjson hextract
      · cases ho.symm.trans h
  · intro h
    have hparsed {content : Bytes} {text : String} {f : TextError}
        (hread : fs.read path = .ok content) (htext : content.text? = some text)
        (hparse : parse text = .error f) : ofFile fs path = .error (.text f) := by
      simp only [ofFile, hread, ofBytes, htext, hparse]
      rfl
    cases h with
    | unread hread => simp only [ofFile, hread]
    | notText hread htext => simp only [ofFile, hread, ofBytes, htext]
    | malformed hread htext hjson =>
      exact hparsed hread htext (parse_eq_error_iff.2 (.inl ⟨_, hjson, rfl⟩))
    | misshapen hread htext hjson hextract =>
      exact hparsed hread htext (parse_eq_error_iff.2 (.inr ⟨_, _, hjson, hextract, rfl⟩))

/-- A stage of a run, of which there may be something to tell. -/
inductive Stage where
  /-- The directory is determined. -/
  | directory
  /-- The latest backup in the directory is looked for. -/
  | lookup
  /-- The backup that was chosen is read. -/
  | reading
  /-- The status is written. -/
  | writing
  deriving DecidableEq

/-- How many stages come before a stage. -/
def Stage.rank : Stage → Nat
  | .directory => 0
  | .lookup => 1
  | .reading => 2
  | .writing => 3

instance : LT Stage := ⟨fun a b ↦ a.rank < b.rank⟩

instance (a b : Stage) : Decidable (a < b) := inferInstanceAs (Decidable (a.rank < b.rank))

/-- The stage that an event belongs to. -/
def Event.stage : Event → Stage
  | .usingDirectory _ | .noDirectory => .directory
  | .selected _ _ | .noBackups _ | .lookupFailed _ => .lookup
  | .unusable _ _ => .reading
  | .writeFailed _ => .writing

/-- **What a run has to tell, and the line for it.** What took place before the status is written is
told on demand, and that it could not be written always. -/
inductive Setting.Tells (s : Setting) (o : Options) : Event → String → Prop where
  | usingDirectory {dir : Path} :
      0 < o.verbosity → s.environment.backupDirectory o.directory = some dir →
      Tells s o (.usingDirectory dir) ("DEBUG using backup directory dir=" ++ dir.display)
  | noDirectory :
      0 < o.verbosity → s.environment.backupDirectory o.directory = none →
      Tells s o .noDirectory "DEBUG unable to resolve home directory; reporting idle"
  | selected {dir : Path} {b : Backup} {time : String} :
      0 < o.verbosity → s.environment.backupDirectory o.directory = some dir →
      Backup.find s.files dir = .ok (some b) → b.modified.rfc3339? = some time →
      Tells s o (.selected b.path time)
        ("DEBUG selected latest backup path=" ++ b.path.display ++ " modified=" ++ time)
  | noBackups {dir : Path} :
      0 < o.verbosity → s.environment.backupDirectory o.directory = some dir →
      Backup.find s.files dir = .ok none →
      Tells s o (.noBackups dir) ("DEBUG no backups found dir=" ++ dir.display)
  | lookupFailed {dir : Path} {e : LookupError} :
      0 < o.verbosity → s.environment.backupDirectory o.directory = some dir →
      Backup.find s.files dir = .error e →
      Tells s o (.lookupFailed e)
        ("DEBUG backup lookup failed; treating as no backup error=" ++ e.message)
  | unusable {dir : Path} {b : Backup} {e : CurrentTask.FileError} :
      0 < o.verbosity → s.environment.backupDirectory o.directory = some dir →
      Backup.find s.files dir = .ok (some b) → CurrentTask.Refuses s.files b.path e →
      Tells s o (.unusable b.path e)
        ("DEBUG failed to extract current task path=" ++ b.path.display ++ " error=" ++ e.message)
  | writeFailed {e : IoError} :
      s.fault = some e →
      Tells s o (.writeFailed e)
        (" WARN failed to report status: failed to write status: " ++ e.message)

/-! ### What is told -/

namespace Event

theorem ofLookup?_eq_some_iff {dir : Path} {r : Except LookupError (Option Backup)} {e : Event} :
    ofLookup? dir r = some e ↔
      (∃ f, r = .error f ∧ e = .lookupFailed f) ∨ (r = .ok none ∧ e = .noBackups dir) ∨
        ∃ b time, r = .ok (some b) ∧ b.modified.rfc3339? = some time ∧
          e = .selected b.path time := by
  rcases r with f | (- | b)
  · simp [ofLookup?, eq_comm]
  · simp [ofLookup?, eq_comm]
  · rw [ofLookup?, Option.map_eq_some_iff]
    simp [eq_comm]

/-- A look-up is told by one of three events, which are those of its stage. -/
theorem stage_of_ofLookup?_eq_some {dir : Path} {r : Except LookupError (Option Backup)} {e : Event}
    (h : ofLookup? dir r = some e) : e.stage = .lookup := by
  rcases ofLookup?_eq_some_iff.1 h with ⟨f, -, rfl⟩ | ⟨-, rfl⟩ | ⟨b, time, -, -, rfl⟩ <;> rfl

/-- What is told about the backup that a look-up has chosen. -/
theorem mem_ofReading_iff {fs : FileSystem} {dir : Path} {e : Event} :
    e ∈ ofReading fs (Backup.locate fs dir) ↔
      ∃ b f, Backup.find fs dir = .ok (some b) ∧ CurrentTask.Refuses fs b.path f ∧
        e = .unusable b.path f := by
  simp only [← CurrentTask.ofFile_eq_error_iff]
  rcases hfind : Backup.find fs dir with f | (- | b)
  · simp [Backup.locate, hfind, ofReading]
  · simp [Backup.locate, hfind, ofReading]
  · rcases hfile : CurrentTask.ofFile fs b.path with f | t <;>
      simp [Backup.locate, hfind, ofReading, hfile]

theorem map_stage_ofReading (fs : FileSystem) (b : Option Backup) :
    (ofReading fs b).map stage = [] ∨ (ofReading fs b).map stage = [.reading] := by
  rcases b with - | b
  · exact Or.inl rfl
  · rw [ofReading]
    rcases CurrentTask.ofFile fs b.path with f | t
    · exact Or.inr rfl
    · exact Or.inl rfl

end Event

namespace Setting

variable (s : Setting) {o : Options}

/-- **The ways diagnostics go**, if they do not fail: none are asked for, there is no directory to
look into, or there is one and the look-up is told. -/
theorem diagnostics?_cases (h : ¬ s.Untellable o) :
    (o.verbosity = 0 ∧ s.diagnostics? o = some []) ∨
      0 < o.verbosity ∧
        ((s.environment.backupDirectory o.directory = none ∧
            s.diagnostics? o = some [.noDirectory]) ∨
          ∃ dir e, s.environment.backupDirectory o.directory = some dir ∧
            Event.ofLookup? dir (Backup.find s.files dir) = some e ∧
            s.diagnostics? o = some ([.usingDirectory dir, e] ++
              Event.ofReading s.files (Backup.locate s.files dir))) := by
  rw [← diagnostics?_eq_none_iff] at h
  rw [diagnostics?] at h ⊢
  by_cases hv : o.verbosity = 0
  · exact Or.inl ⟨hv, if_pos hv⟩
  · rw [if_neg hv] at h ⊢
    refine Or.inr ⟨Nat.pos_of_ne_zero hv, ?_⟩
    rcases hdir : s.environment.backupDirectory o.directory with - | dir
    · exact Or.inl ⟨rfl, rfl⟩
    · rw [hdir, Event.ofStatus?] at h
      obtain ⟨e, he⟩ := Option.ne_none_iff_exists'.1 fun hnone ↦ h (Option.map_eq_none_iff.2 hnone)
      exact Or.inr ⟨dir, e, rfl, he, by rw [Event.ofStatus?, he]; rfl⟩

/-- A report tells its diagnostics, and behind them that the status could not be written. -/
theorem report_eq_of_diagnostics? {events : List Event} (h : s.diagnostics? o = some events) :
    s.report o = .finished
      (if s.fault.isSome then "" else s.line o.directory o.mode ++ "\n")
      (events ++ s.fault.toList.map .writeFailed) := by
  rw [report, h]
  rcases s.fault with - | e
  · exact congrArg _ (List.append_nil events).symm
  · rfl

/-- What a report tells, stage by stage. -/
theorem mem_log_report_iff (h : ¬ s.Untellable o) {e : Event} :
    e ∈ (s.report o).log ↔
      (0 < o.verbosity ∧
        ((s.environment.backupDirectory o.directory = none ∧ e = .noDirectory) ∨
          ∃ dir, s.environment.backupDirectory o.directory = some dir ∧
            (e = .usingDirectory dir ∨ Event.ofLookup? dir (Backup.find s.files dir) = some e ∨
              e ∈ Event.ofReading s.files (Backup.locate s.files dir)))) ∨
        ∃ f, s.fault = some f ∧ e = .writeFailed f := by
  have hwrite : e ∈ s.fault.toList.map Event.writeFailed ↔
      ∃ f, s.fault = some f ∧ e = .writeFailed f := by
    simp [eq_comm]
  rcases s.diagnostics?_cases h with
    ⟨hv, hd⟩ | ⟨hv, ⟨hdir, hd⟩ | ⟨dir, lookup, hdir, hlookup, hd⟩⟩
  · rw [s.report_eq_of_diagnostics? hd, Outcome.log, List.nil_append, hwrite]
    simp [hv]
  · rw [s.report_eq_of_diagnostics? hd, Outcome.log, List.mem_append, hwrite]
    simp [hv, hdir]
  · rw [s.report_eq_of_diagnostics? hd, Outcome.log, List.mem_append, hwrite]
    simp [hv, hdir, hlookup, eq_comm]

/-- **An event is told exactly if it took place**, by its line. -/
theorem tells_iff (h : ¬ s.Untellable o) {e : Event} {line : String} :
    s.Tells o e line ↔ e ∈ (s.report o).log ∧ e.line = line := by
  rw [s.mem_log_report_iff h]
  constructor
  · intro htells
    cases htells with
    | usingDirectory hv hdir => exact ⟨.inl ⟨hv, .inr ⟨_, hdir, .inl rfl⟩⟩, rfl⟩
    | noDirectory hv hdir => exact ⟨.inl ⟨hv, .inl ⟨hdir, rfl⟩⟩, rfl⟩
    | selected hv hdir hfind htime =>
      refine ⟨.inl ⟨hv, .inr ⟨_, hdir, .inr (.inl ?_)⟩⟩, rfl⟩
      exact Event.ofLookup?_eq_some_iff.2 (.inr (.inr ⟨_, _, hfind, htime, rfl⟩))
    | noBackups hv hdir hfind =>
      refine ⟨.inl ⟨hv, .inr ⟨_, hdir, .inr (.inl ?_)⟩⟩, rfl⟩
      exact Event.ofLookup?_eq_some_iff.2 (.inr (.inl ⟨hfind, rfl⟩))
    | lookupFailed hv hdir hfind =>
      refine ⟨.inl ⟨hv, .inr ⟨_, hdir, .inr (.inl ?_)⟩⟩, rfl⟩
      exact Event.ofLookup?_eq_some_iff.2 (.inl ⟨_, hfind, rfl⟩)
    | unusable hv hdir hfind hrefuses =>
      refine ⟨.inl ⟨hv, .inr ⟨_, hdir, .inr (.inr ?_)⟩⟩, rfl⟩
      exact Event.mem_ofReading_iff.2 ⟨_, _, hfind, hrefuses, rfl⟩
    | writeFailed hfault => exact ⟨.inr ⟨_, hfault, rfl⟩, rfl⟩
  · rintro ⟨⟨hv, ⟨hdir, rfl⟩ | ⟨dir, hdir, rfl | hlookup | hreading⟩⟩ | ⟨f, hfault, rfl⟩, rfl⟩
    · exact .noDirectory hv hdir
    · exact .usingDirectory hv hdir
    · rcases Event.ofLookup?_eq_some_iff.1 hlookup with
        ⟨f, hfind, rfl⟩ | ⟨hfind, rfl⟩ | ⟨b, time, hfind, htime, rfl⟩
      · exact .lookupFailed hv hdir hfind
      · exact .noBackups hv hdir hfind
      · exact .selected hv hdir hfind htime
    · obtain ⟨b, f, hfind, hrefuses, rfl⟩ := Event.mem_ofReading_iff.1 hreading
      exact .unusable hv hdir hfind hrefuses
    · exact .writeFailed hfault

/-- **The stages that are told**, in their order and each at most once. -/
theorem exists_stages_report (h : ¬ s.Untellable o) :
    ∃ stages, (s.report o).log.map Event.stage =
        stages ++ (if s.fault.isSome then [.writing] else []) ∧
      ((o.verbosity = 0 ∧ stages = []) ∨ 0 < o.verbosity ∧
        ((s.environment.backupDirectory o.directory = none ∧ stages = [.directory]) ∨
          ∃ dir, s.environment.backupDirectory o.directory = some dir ∧
            (stages = [.directory, .lookup] ∨ stages = [.directory, .lookup, .reading]))) := by
  have hlog {events : List Event} (hd : s.diagnostics? o = some events) :
      (s.report o).log.map Event.stage =
        events.map Event.stage ++ (if s.fault.isSome then [.writing] else []) := by
    rw [s.report_eq_of_diagnostics? hd, Outcome.log, List.map_append]
    rcases s.fault with - | e <;> rfl
  rcases s.diagnostics?_cases h with
    ⟨hv, hd⟩ | ⟨hv, ⟨hdir, hd⟩ | ⟨dir, lookup, hdir, hlookup, hd⟩⟩
  · exact ⟨_, hlog hd, .inl ⟨hv, rfl⟩⟩
  · exact ⟨_, hlog hd, .inr ⟨hv, .inl ⟨hdir, rfl⟩⟩⟩
  · refine ⟨_, hlog hd, .inr ⟨hv, .inr ⟨dir, hdir, ?_⟩⟩⟩
    rw [List.map_append, List.map_cons, List.map_singleton,
      Event.stage_of_ofLookup?_eq_some hlookup]
    rcases Event.map_stage_ofReading s.files (Backup.locate s.files dir) with hnone | hone
    · exact .inl (by rw [hnone]; rfl)
    · exact .inr (by rw [hone]; rfl)

/-- **What is told of a backup is what the line reports**: the words of the failure stand in the
status. -/
theorem output_report_of_unusable (h : ¬ s.Untellable o) {path : Path} {e : CurrentTask.FileError}
    (hmem : .unusable path e ∈ (s.report o).log) (hfault : s.fault = none)
    (hmode : o.mode = .text) : (s.report o).output = "SP: Error: " ++ e.message ++ "\n" := by
  have htells := (s.tells_iff h).2 ⟨hmem, rfl⟩
  cases htells with
  | @unusable dir b _ hv hdir hfind hrefuses =>
    have hstatus : currentStatus s.files (some dir) = .ofMessage e.message := by
      rw [currentStatus_of_selected (selected_iff.2 hfind),
        CurrentTask.ofFile_eq_error_iff.2 hrefuses]
      rfl
    have hline : s.line o.directory o.mode = "SP: Error: " ++ e.message := by
      rw [line, hdir, hstatus, hmode]
      show "SP: " ++ ("Error: " ++ e.message) = _
      rw [← String.append_assoc]
      rfl
    rw [(s.report_of_not_untellable h).2, hfault, hline]
    rfl

/-- **The lines are legible** if the names are, and the words for the failure to write. -/
theorem Tells.printable {t : FileTree} {environment : Environment} {stamp : String}
    {fault : Option IoError}
    (hdirectory : ∀ d ∈ o.directory, d.bytes.Legible) (henvironment : environment.Legible)
    (ht : t.Legible) (hfault : ∀ f ∈ fault, Json.Printable f.message.toList) {e : Event}
    {line : String} (h : Tells ⟨environment, t.fileSystem, stamp, fault⟩ o e line) :
    Json.Printable line.toList := by
  have hlegible {dir : Path} (hdir : environment.backupDirectory o.directory = some dir) :
      dir.bytes.Legible :=
    henvironment.backupDirectory hdirectory hdir
  cases h with
  | usingDirectory _ hdir =>
    rw [String.toList_append, Json.printable_append]
    exact ⟨by decide, Path.printable_display (hlegible hdir)⟩
  | noDirectory => decide
  | selected _ hdir hfind htime =>
    simp only [String.toList_append, Json.printable_append]
    exact ⟨⟨⟨by decide, Path.printable_display (legible_path_of_find ht (hlegible hdir) hfind)⟩,
      by decide⟩, Instant.printable_of_rfc3339?_eq_some htime⟩
  | noBackups _ hdir =>
    rw [String.toList_append, Json.printable_append]
    exact ⟨by decide, Path.printable_display (hlegible hdir)⟩
  | lookupFailed _ hdir hfind =>
    rw [String.toList_append, Json.printable_append]
    exact ⟨by decide, printable_of_find_eq_error ht (hlegible hdir) hfind⟩
  | unusable _ hdir hfind hrefuses =>
    simp only [String.toList_append, Json.printable_append]
    exact ⟨⟨⟨by decide, Path.printable_display (legible_path_of_find ht (hlegible hdir) hfind)⟩,
      by decide⟩, printable_of_ofFile_eq_error hfind (CurrentTask.ofFile_eq_error_iff.2 hrefuses)⟩
  | writeFailed hwrite =>
    rw [String.toList_append, Json.printable_append]
    exact ⟨by decide, hfault _ hwrite⟩

/-- **The log tells the truth**, for all arguments that are understood, every environment and every
tree whose names have no control characters and whose times have timestamps, and whether standard
output can be written or not. The exit status is zero, and:

* an event is told, by its line, exactly if it took place;
* the stages of the run are told in their order, each at most once: if no diagnostics are asked for,
  nothing but that the status could not be written; otherwise the directory, and the look-up exactly
  if there is a directory;
* if a backup is told to give no task and the status is written as text, it is the report of this
  failure in the same words;
* every event is one line. -/
theorem run_log (environment : Environment) (t : FileTree) (stamp : String)
    (fault : Option IoError) (args : List Bytes) (o : Options)
    (hparse : Request.parse args = .status o)
    (hdirectory : ∀ d ∈ o.directory, d.bytes.Legible) (henvironment : environment.Legible)
    (hnames : t.Legible) (htimely : t.Timely) :
    let s : Setting := ⟨environment, t.fileSystem, stamp, fault⟩
    let r := s.run args
    r.exitCode = 0 ∧
      (∀ e line, s.Tells o e line ↔ e ∈ r.log ∧ e.line = line) ∧
      (r.log.map Event.stage).Pairwise (· < ·) ∧
      (o.verbosity = 0 → r.log = fault.toList.map .writeFailed) ∧
      (0 < o.verbosity →
        (r.log.map Event.stage).count .directory = 1 ∧ (r.log.map Event.stage).count .lookup =
          if (environment.backupDirectory o.directory).isSome then 1 else 0) ∧
      (∀ path e, .unusable path e ∈ r.log → fault = none → o.mode = .text →
        r.output = "SP: Error: " ++ e.message ++ "\n") ∧
      ((∀ f ∈ fault, Json.Printable f.message.toList) →
        ∀ e ∈ r.log, Json.Printable e.line.toList) := by
  intro s r
  have htell : ¬ s.Untellable o := htimely.not_untellable s rfl o
  have hr : r = s.report o := s.run_of_reports (.inl hparse)
  obtain ⟨stages, hstages, hcases⟩ := s.exists_stages_report htell
  generalize s.fault.isSome = failed at hstages
  rw [hr]
  refine ⟨(s.report_of_not_untellable htell).1, fun e line ↦ s.tells_iff htell, ?_, ?_, ?_, ?_, ?_⟩
  · rw [hstages]
    rcases hcases with ⟨-, rfl⟩ | ⟨-, ⟨-, rfl⟩ | ⟨dir, -, rfl | rfl⟩⟩ <;> cases failed <;> decide
  · intro hv
    have hnone : s.diagnostics? o = some [] := if_pos hv
    rw [s.report_eq_of_diagnostics? hnone]
    rfl
  · intro hv
    rw [hstages]
    rcases hcases with ⟨hv', -⟩ | ⟨-, ⟨hdir, rfl⟩ | ⟨dir, hdir, hstages⟩⟩
    · exact absurd hv' (Nat.ne_of_gt hv)
    · rw [show environment.backupDirectory o.directory = none from hdir]
      cases failed <;> decide
    · rw [show environment.backupDirectory o.directory = some dir from hdir]
      rcases hstages with rfl | rfl <;> cases failed <;> exact ⟨rfl, rfl⟩
  · exact fun path e hmem ↦ s.output_report_of_unusable htell hmem
  · intro hfault e he
    exact ((s.tells_iff htell).2 ⟨he, rfl⟩).printable hdirectory henvironment hnames hfault

/-- A backup that has not been finished: the failure is told and reported. -/
theorem run_log_unfinished :
    let t := FileTree.empty.apply
      (.write (Path.ofText "b/a.json") (Bytes.ofText "\x7b") ⟨0, 0, by decide⟩)
    let args := ["-v", "--backup-dir", "b"].map Bytes.ofText
    let o : Options := ⟨false, some (Path.ofText "b"), 1⟩
    let e : Environment := { home := some (Bytes.ofText "/h") }
    let r := run ⟨e, t.fileSystem, "nogit", none⟩ args
    Request.parse args = .status o ∧ (∀ d ∈ o.directory, d.bytes.Legible) ∧
      e.Legible ∧ t.Legible ∧ t.Timely ∧
      r.log.map Event.line = [
        "DEBUG using backup directory dir=b",
        "DEBUG selected latest backup path=b/a.json modified=1970-01-01T00:00:00+00:00",
        "DEBUG failed to extract current task path=b/a.json " ++
          "error=EOF while parsing an object at line 1 column 1"] ∧
      r.output = "SP: Error: EOF while parsing an object at line 1 column 1\n" := by
  intro t args o e r
  have hparse : Request.parse args = .status o := by decide +kernel
  have hdirectory : ∀ d ∈ o.directory, d.bytes.Legible := by
    rintro d ⟨⟩
    decide
  have henvironment : e.Legible := ⟨by rintro _ ⟨⟩; decide, nofun⟩
  have hnames : t.Legible := by
    unfold FileTree.Legible
    decide +kernel
  have htimely : t.Timely := FileTree.timely_of_nodes (by decide +kernel)
  obtain ⟨-, -, -, -, -, houtput, -⟩ :=
    run_log e t "nogit" none args o hparse hdirectory henvironment hnames htimely
  refine ⟨hparse, hdirectory, henvironment, hnames, htimely, by decide +kernel, ?_⟩
  exact houtput (Path.ofText "b/a.json") (.text (.malformed ⟨.endInObject, 1, 1⟩))
    (by decide +kernel) rfl rfl

end Setting

end TaskStatus
