import TaskStatus.FileTree.Change
import TaskStatus.Proofs.LatestBackup
import TaskStatus.Proofs.TrackedTask
import TaskStatus.Task.Status

/-!
# Where failures go

A failure on the way to the current status is handled in one of two ways, and the line between them
is the selection of a backup. What fails **before** a backup is selected counts as an absence of
backups, and the status is idle (`Unavailable`). What fails **after** it is reported in the title:
the selected backup cannot be read, its content is no text, or the text gives no task.

This holds whatever a file system answers. In a file tree examining and reading follow a path by the
same function, so the path of a selected backup leads to a regular file when it is read, too. What is
left to fail there is the file itself: to be examined it needs no permission, and to be read it does
(`FileTree.read_cases_of_stat_eq_file`).
-/

namespace TaskStatus

/-! ### Reading what was examined -/

namespace FileTree

/-- A path leads to a regular file for `stat` exactly when it is resolved to one. -/
theorem stat_eq_file_iff {t : FileTree} {p : Path} {m : Instant} :
    t.stat p = .ok (.file m) ↔
      ∃ place node, t.resolve p = .ok (place, node) ∧ node.modified? = some m := by
  rw [stat]
  rcases t.resolve p with e | ⟨place, node⟩
  · simp [Except.map]
  · rcases hm : node.modified? with - | modified <;> simp [Except.map, hm]

theorem read_of_resolve_eq_file {t : FileTree} {p : Path} {place : Place} {content : Bytes}
    {m : Instant} (h : t.resolve p = .ok (place, .file content m)) : t.read p = .ok content := by
  rw [read, h]

/-- **What was examined can be read, or has an obstacle of its own**: the path has been followed
before, and leads to the same file. -/
theorem read_cases_of_stat_eq_file {t : FileTree} {p : Path} {m : Instant}
    (h : t.stat p = .ok (.file m)) :
    (∃ content, t.read p = .ok content) ∨ ∃ place obstacle,
      t.resolve p = .ok (place, .unreadable obstacle m) ∧ t.read p = .error obstacle.error := by
  obtain ⟨place, node, hresolve, hm⟩ := stat_eq_file_iff.1 h
  cases node with
  | file content modified => exact Or.inl ⟨content, read_of_resolve_eq_file hresolve⟩
  | unreadable obstacle modified =>
    obtain rfl : modified = m := Option.some.inj hm
    exact Or.inr ⟨place, obstacle, hresolve, by rw [read, hresolve]⟩
  | directory | link | device => cases hm

end FileTree

/-! ### The words of a failure -/

theorem Json.SyntaxError.toList_message (e : SyntaxError) :
    e.message.toList = e.cause.message.toList ++ (" at line ".toList ++ (Nat.toDigits 10 e.line ++
      (" column ".toList ++ Nat.toDigits 10 e.column))) := by
  show (e.cause.message ++ " at line " ++ toString e.line ++ " column " ++ toString e.column).toList
    = _
  simp only [String.toList_append, Nat.toString_eq_repr, Nat.toList_repr, List.append_assoc]

namespace CurrentTask

/-- What a title that reports a failure begins with. -/
def errorPrefix : List Char := ['E', 'r', 'r', 'o', 'r', ':', ' ']

theorem toList_title_ofMessage (m : String) : (ofMessage m).title.toList = errorPrefix ++ m.toList :=
  String.toList_append

/-- Words that begin otherwise in their first two letters do not begin with the prefix. -/
theorem not_errorPrefix_prefix {s : List Char} (rest : List Char) (hlen : 2 ≤ s.length)
    (h : s.take 2 ≠ ['E', 'r']) : ¬ errorPrefix <+: s ++ rest := by
  rintro ⟨r, hr⟩
  apply h
  have htake : (s ++ rest).take 2 = s.take 2 := List.take_append_of_le_length hlen
  rw [← htake, ← hr]
  rfl

/-- The words for a text that gives no task do not bring the prefix along. -/
theorem TextError.not_errorPrefix_prefix_message (e : TextError) :
    ¬ errorPrefix <+: e.message.toList := by
  rcases e with ⟨cause, line, column⟩ | p
  · have hcause : 2 ≤ cause.message.toList.length ∧ cause.message.toList.take 2 ≠ ['E', 'r'] := by
      cases cause <;> decide
    rw [TextError.message, Json.SyntaxError.toList_message]
    exact not_errorPrefix_prefix _ hcause.1 hcause.2
  · rw [TextError.message, Part.message, String.toList_append]
    exact not_errorPrefix_prefix _ (by cases p <;> decide) (by cases p <;> decide)

/-- Nor do the words for a file that has an obstacle. -/
theorem not_errorPrefix_prefix_obstacle (obstacle : Obstacle) :
    ¬ errorPrefix <+: obstacle.error.message.toList := by
  cases obstacle <;> decide

theorem ofMessage_injective {m m' : String} (h : ofMessage m = ofMessage m') : m = m' := by
  have htitle := congrArg (fun t : CurrentTask ↦ t.title.toList) h
  simp only [toList_title_ofMessage] at htitle
  exact String.toList_injective (List.append_cancel_left htitle)

theorem idle_ne_ofMessage (m : String) : idle ≠ ofMessage m := by
  intro h
  have htitle := congrArg (fun t : CurrentTask ↦ t.title.toList) h
  simp only [toList_title_ofMessage, errorPrefix] at htitle
  cases htitle

/-- An outcome that is read off a text is never the report of a failure. -/
theorem ne_ofMessage_of_parse_eq_ok {text : String} {t : CurrentTask} (h : parse text = .ok t)
    (m : String) : t ≠ ofMessage m := by
  rintro rfl
  exact idle_ne_ofMessage m (eq_idle_of_parse_eq_ok h rfl).symm

end CurrentTask

/-! ### The two sides of the selection -/

section

variable {fs : FileSystem} {dir : Path} {b : Backup}

/-- **No backup can be selected**: no directory is known, it cannot be listed, an entry obstructs
the look-up, or no entry is eligible. -/
def Unavailable (fs : FileSystem) : Option Path → Prop
  | none => True
  | some dir =>
    (∃ e, fs.list dir = .error e) ∨
      ∃ ns, fs.list dir = .ok ns ∧
        ((∃ n ∈ ns, ∃ e, Backup.Obstructs fs dir n e) ∨
          ∀ n ∈ ns, ∀ t, ¬ Backup.Eligible fs dir n t)

/-- **The selected backup** of a directory: no entry obstructs the look-up, and the backup is the
latest eligible entry. -/
def Selected (fs : FileSystem) (dir : Path) (b : Backup) : Prop :=
  ∃ ns n time, fs.list dir = .ok ns ∧ (∀ m ∈ ns, ∀ e, ¬ Backup.Obstructs fs dir m e) ∧
    Backup.IsLatest fs dir ns n time ∧ b = ⟨dir.join n, time⟩

/-- The backup that is selected is the one that is found. -/
theorem selected_iff : Selected fs dir b ↔ Backup.find fs dir = .ok (some b) := by
  constructor
  · rintro ⟨ns, n, time, hns, hno, hlatest, rfl⟩
    exact (Backup.find_eq_ok_iff hns).2 ⟨hno, Or.inr ⟨n, time, hlatest, rfl⟩⟩
  · intro h
    obtain ⟨ns, n, time, hns, hlatest, rfl⟩ := Backup.exists_isLatest_of_find h
    exact ⟨ns, n, time, hns, ((Backup.find_eq_ok_iff hns).1 h).1, hlatest, rfl⟩

/-- A directory has one selected backup at most. -/
theorem Selected.unique {b' : Backup} (h : Selected fs dir b) (h' : Selected fs dir b') : b = b' :=
  Option.some.inj (Except.ok.inj ((selected_iff.1 h).symm.trans (selected_iff.1 h')))

/-- The selected backup has been examined. -/
theorem Selected.stat_eq (h : Selected fs dir b) : fs.stat b.path = .ok (.file b.modified) := by
  obtain ⟨ns, n, time, -, -, hlatest, rfl⟩ := h
  exact hlatest.1.2.2

theorem Selected.not_unavailable (h : Selected fs dir b) : ¬ Unavailable fs (some dir) := by
  obtain ⟨ns, n, time, hns, hno, hlatest, -⟩ := h
  rintro (⟨e, he⟩ | ⟨ns', hns', hwhy⟩)
  · have hboth : Except.ok ns = Except.error e := hns.symm.trans he
    cases hboth
  · obtain rfl : ns = ns' := Except.ok.inj (hns.symm.trans hns')
    rcases hwhy with ⟨m, hm, e, he⟩ | hnone
    · exact hno m hm e he
    · exact hnone n hlatest.1.1 time hlatest.1.2

/-- **The two sides of the selection**: none of the backups is available and none is located, or one
is selected. -/
theorem selection_cases (fs : FileSystem) (dir : Path) :
    (Unavailable fs (some dir) ∧ Backup.locate fs dir = none) ∨ ∃ b, Selected fs dir b := by
  rcases hns : fs.list dir with e | ns
  · exact Or.inl ⟨Or.inl ⟨e, hns⟩, by rw [Backup.locate, Backup.find, hns]⟩
  · rcases Backup.find_cases hns with
      ⟨n, hn, e, he, hf⟩ | ⟨-, ⟨hnone, hf⟩ | ⟨n, time, -, hf⟩⟩
    · exact Or.inl ⟨Or.inr ⟨ns, hns, Or.inl ⟨n, hn, e, he⟩⟩, by rw [Backup.locate, hf]⟩
    · exact Or.inl ⟨Or.inr ⟨ns, hns, Or.inr hnone⟩, by rw [Backup.locate, hf]⟩
    · exact Or.inr ⟨_, selected_iff.2 hf⟩

theorem unavailable_or_selected (fs : FileSystem) (dir : Option Path) :
    Unavailable fs dir ∨ ∃ d b, dir = some d ∧ Selected fs d b := by
  rcases dir with - | dir
  · exact Or.inl trivial
  · rcases selection_cases fs dir with ⟨h, -⟩ | ⟨b, hsel⟩
    · exact Or.inl h
    · exact Or.inr ⟨dir, b, rfl, hsel⟩

/-- Without a backup to select the status is idle. -/
theorem currentStatus_of_unavailable {dir : Option Path} (h : Unavailable fs dir) :
    currentStatus fs dir = .idle := by
  have hlocate : dir.bind (Backup.locate fs) = none := by
    rcases dir with - | dir
    · rfl
    · rcases selection_cases fs dir with ⟨-, hnone⟩ | ⟨b, hsel⟩
      · exact hnone
      · exact absurd h hsel.not_unavailable
  rw [currentStatus, hlocate]
  rfl

/-- **The selected backup decides**: the status is what its file gives. -/
theorem currentStatus_of_selected (h : Selected fs dir b) :
    currentStatus fs (some dir) = CurrentTask.report (CurrentTask.ofFile fs b.path) := by
  have hlocate : Backup.locate fs dir = some b := by rw [Backup.locate, selected_iff.1 h]
  rw [currentStatus, Option.bind_some, hlocate]
  rfl

/-- In a file tree the selected backup can be read, or has an obstacle of its own. -/
theorem Selected.read_cases {t : FileTree} (h : Selected t.fileSystem dir b) :
    (∃ content, t.read b.path = .ok content) ∨ ∃ place obstacle,
      t.resolve b.path = .ok (place, .unreadable obstacle b.modified) ∧
        t.read b.path = .error obstacle.error :=
  FileTree.read_cases_of_stat_eq_file h.stat_eq

end

/-! ### What is reported -/

namespace CurrentTask

section

variable {fs : FileSystem} {path : Path}

theorem ofFile_of_read_eq_ok {content : Bytes} (h : fs.read path = .ok content) :
    ofFile fs path = ofBytes content := by
  rw [ofFile, h]

theorem report_ofFile_of_read_eq_error {e : IoError} (h : fs.read path = .error e) :
    report (ofFile fs path) = ofMessage e.message := by
  rw [ofFile, h]
  rfl

end

/-- **The three outcomes of content**: it is no text, the text gives no task, or it gives one. -/
theorem ofBytes_cases (content : Bytes) :
    (content.text? = none ∧ ofBytes content = .error (.unreadable .notText)) ∨
      (∃ text e, content.text? = some text ∧ parse text = .error e ∧
        ofBytes content = .error (.text e)) ∨
      ∃ text t, content.text? = some text ∧ parse text = .ok t ∧ ofBytes content = .ok t := by
  rcases htext : content.text? with - | text
  · exact Or.inl ⟨rfl, by rw [ofBytes, htext]⟩
  · rcases hparse : parse text with e | t
    · exact Or.inr (Or.inl ⟨text, e, rfl, hparse, by simp only [ofBytes, htext, hparse]; rfl⟩)
    · exact Or.inr (Or.inr ⟨text, t, rfl, hparse, by simp only [ofBytes, htext, hparse]; rfl⟩)

section

variable {content : Bytes} {text : String}

theorem report_ofBytes_of_text?_eq_none (h : content.text? = none) :
    report (ofBytes content) = ofMessage IoError.notText.message := by
  rw [ofBytes, h]
  rfl

theorem report_ofBytes_of_parse_eq_error {e : TextError} (h : content.text? = some text)
    (hparse : parse text = .error e) : report (ofBytes content) = ofMessage e.message := by
  simp only [ofBytes, h, hparse]
  rfl

theorem report_ofBytes_of_parse_eq_ok {t : CurrentTask} (h : content.text? = some text)
    (hparse : parse text = .ok t) : report (ofBytes content) = t := by
  simp only [ofBytes, h, hparse]
  rfl

/-- **Titles that report a failure** come from content that is no text or gives no task, and from
nothing else. -/
theorem report_ofBytes_eq_ofMessage_iff :
    (∃ m, report (ofBytes content) = ofMessage m) ↔
      content.text? = none ∨
        ∃ text e, content.text? = some text ∧ parse text = .error e := by
  rcases ofBytes_cases content with
    ⟨htext, h⟩ | ⟨text, e, htext, hparse, h⟩ | ⟨text, t, htext, hparse, h⟩
  · exact iff_of_true ⟨_, congrArg report h⟩ (Or.inl htext)
  · exact iff_of_true ⟨_, congrArg report h⟩ (Or.inr ⟨text, e, htext, hparse⟩)
  · refine iff_of_false ?_ (by simp [htext, hparse])
    rintro ⟨m, hm⟩
    rw [h] at hm
    exact ne_ofMessage_of_parse_eq_ok hparse m hm

/-- The prefix stands in a title once. -/
theorem not_errorPrefix_prefix_of_report_eq {m : String}
    (h : report (ofBytes content) = ofMessage m) : ¬ errorPrefix <+: m.toList := by
  rcases ofBytes_cases content with ⟨-, ho⟩ | ⟨text, e, -, -, ho⟩ | ⟨text, t, -, hparse, ho⟩
  · rw [ho] at h
    rw [← ofMessage_injective h]
    decide
  · rw [ho] at h
    rw [← ofMessage_injective h]
    exact e.not_errorPrefix_prefix_message
  · rw [ho] at h
    exact absurd h (ne_ofMessage_of_parse_eq_ok hparse m)

end

/-- A file that cannot be read is reported as well. -/
theorem report_ofFile_eq_ofMessage_iff {fs : FileSystem} {path : Path} :
    (∃ m, report (ofFile fs path) = ofMessage m) ↔
      (∃ e, fs.read path = .error e) ∨ ∃ content, fs.read path = .ok content ∧
        (content.text? = none ∨ ∃ text e, content.text? = some text ∧ parse text = .error e) := by
  rcases hread : fs.read path with e | content
  · exact iff_of_true ⟨_, report_ofFile_of_read_eq_error hread⟩ (Or.inl ⟨e, rfl⟩)
  · rw [ofFile_of_read_eq_ok hread, report_ofBytes_eq_ofMessage_iff]
    simp

/-- What is not active is idle or the report of a failure. -/
theorem report_ofFile_isActive_eq_false_iff {fs : FileSystem} {path : Path} :
    (report (ofFile fs path)).isActive = false ↔
      report (ofFile fs path) = idle ∨ ∃ m, report (ofFile fs path) = ofMessage m := by
  constructor
  · intro h
    rcases hread : fs.read path with e | content
    · exact Or.inr ⟨_, report_ofFile_of_read_eq_error hread⟩
    · rw [ofFile_of_read_eq_ok hread] at h ⊢
      rcases ofBytes_cases content with ⟨-, ho⟩ | ⟨text, e, -, -, ho⟩ | ⟨text, t, -, hparse, ho⟩
      · exact Or.inr ⟨_, congrArg report ho⟩
      · exact Or.inr ⟨_, congrArg report ho⟩
      · rw [ho] at h ⊢
        exact Or.inl (eq_idle_of_parse_eq_ok hparse (by simpa [report, isActive] using h))
  · rintro (h | ⟨m, h⟩) <;> rw [h] <;> rfl

end CurrentTask

/-- In a file tree the prefix stands in a title once, whatever is reported. -/
theorem not_errorPrefix_prefix_of_currentStatus_eq {t : FileTree} {dir : Option Path} {m : String}
    (h : currentStatus t.fileSystem dir = .ofMessage m) :
    ¬ CurrentTask.errorPrefix <+: m.toList := by
  rcases unavailable_or_selected t.fileSystem dir with hno | ⟨d, b, rfl, hsel⟩
  · rw [currentStatus_of_unavailable hno] at h
    exact absurd h (CurrentTask.idle_ne_ofMessage m)
  · rw [currentStatus_of_selected hsel] at h
    rcases hsel.read_cases with ⟨content, hread⟩ | ⟨place, obstacle, -, hread⟩
    · rw [CurrentTask.ofFile_of_read_eq_ok hread] at h
      exact CurrentTask.not_errorPrefix_prefix_of_report_eq h
    · rw [CurrentTask.report_ofFile_of_read_eq_error hread] at h
      rw [← CurrentTask.ofMessage_injective h]
      exact CurrentTask.not_errorPrefix_prefix_obstacle obstacle

/-- **The taxonomy of failures**, for all answers of a file system and every directory:

* without a backup to select the status is idle, and otherwise the file of the selected backup
  decides;
* the title reports a failure exactly if this file cannot be read, or its content is no text, or the
  text gives no task, and then with the words for the failure; otherwise the status is the task that
  the text gives;
* a status is inactive exactly if it is idle or reports a failure.

In a file tree, reading the selected backup fails only because of an obstacle of the file itself, to
which its path has been followed; and the prefix stands in front of the words once. -/
theorem currentStatus_taxonomy (fs : FileSystem) (dir : Option Path) :
    (Unavailable fs dir → currentStatus fs dir = .idle) ∧
    (¬ Unavailable fs dir ↔ ∃ d b, dir = some d ∧ Selected fs d b) ∧
    (∀ d b, dir = some d → Selected fs d b →
      ((∃ m, currentStatus fs dir = .ofMessage m) ↔
        (∃ e, fs.read b.path = .error e) ∨ ∃ content, fs.read b.path = .ok content ∧
          (content.text? = none ∨
            ∃ text e, content.text? = some text ∧ CurrentTask.parse text = .error e)) ∧
      (∀ e, fs.read b.path = .error e → currentStatus fs dir = .ofMessage e.message) ∧
      ∀ content, fs.read b.path = .ok content →
        (content.text? = none → currentStatus fs dir = .ofMessage IoError.notText.message) ∧
        ∀ text, content.text? = some text →
          (∀ e, CurrentTask.parse text = .error e → currentStatus fs dir = .ofMessage e.message) ∧
          ∀ task, CurrentTask.parse text = .ok task → currentStatus fs dir = task) ∧
    ((currentStatus fs dir).isActive = false ↔
      currentStatus fs dir = .idle ∨ ∃ m, currentStatus fs dir = .ofMessage m) ∧
    ∀ t : FileTree, fs = t.fileSystem →
      (∀ d b e, dir = some d → Selected fs d b → fs.read b.path = .error e →
        ∃ place obstacle, t.resolve b.path = .ok (place, .unreadable obstacle b.modified) ∧
          e = obstacle.error) ∧
      ∀ m, currentStatus fs dir = .ofMessage m → ¬ CurrentTask.errorPrefix <+: m.toList := by
  refine ⟨currentStatus_of_unavailable, ⟨fun h ↦ ?_, ?_⟩, ?_, ?_, ?_⟩
  · exact (unavailable_or_selected fs dir).resolve_left h
  · rintro ⟨d, b, rfl, hsel⟩
    exact hsel.not_unavailable
  · rintro d b rfl hsel
    rw [currentStatus_of_selected hsel]
    refine ⟨CurrentTask.report_ofFile_eq_ofMessage_iff,
      fun e ↦ CurrentTask.report_ofFile_of_read_eq_error, fun content hread ↦ ?_⟩
    rw [CurrentTask.ofFile_of_read_eq_ok hread]
    exact ⟨CurrentTask.report_ofBytes_of_text?_eq_none, fun text htext ↦
      ⟨fun e ↦ CurrentTask.report_ofBytes_of_parse_eq_error htext,
        fun task ↦ CurrentTask.report_ofBytes_of_parse_eq_ok htext⟩⟩
  · rcases unavailable_or_selected fs dir with h | ⟨d, b, rfl, hsel⟩
    · rw [currentStatus_of_unavailable h]
      exact ⟨fun _ ↦ Or.inl rfl, fun _ ↦ rfl⟩
    · rw [currentStatus_of_selected hsel]
      exact CurrentTask.report_ofFile_isActive_eq_false_iff
  · rintro t rfl
    refine ⟨fun d b e _ hsel he ↦ ?_, fun m ↦ not_errorPrefix_prefix_of_currentStatus_eq⟩
    rcases hsel.read_cases with ⟨content, hread⟩ | ⟨place, obstacle, hresolve, hread⟩
    · cases hread.symm.trans he
    · exact ⟨place, obstacle, hresolve, (Except.error.inj (hread.symm.trans he)).symm⟩

/-- A backup that is a link to the memory of the program is a regular file, and cannot be read. -/
theorem currentStatus_of_unreadable :
    let t := FileTree.empty.applyAll [
      .makeDirectory (Path.ofText "b"),
      .link (Path.ofText "b/a.json")
        (Path.ofText "../../../../../../../../../../../../proc/self/mem")]
    ∃ b e, Backup.find t.fileSystem (Path.ofText "b") = .ok (some b) ∧
      t.read b.path = .error e ∧ e ≠ .notText ∧
      currentStatus t.fileSystem (some (Path.ofText "b")) = .ofMessage e.message ∧
      (currentStatus t.fileSystem (some (Path.ofText "b"))).title =
        "Error: Input/output error (os error 5)" := by
  intro t
  exact ⟨⟨Path.ofText "b/a.json", .atSecond 0⟩, .inputOutput, by decide +kernel, by decide +kernel,
    by decide, by decide +kernel, by decide +kernel⟩

end TaskStatus
