import TaskStatus.FileTree.Change
import TaskStatus.Proofs.CurrentStatus
import TaskStatus.Proofs.PrintedText
import TaskStatus.Proofs.Runs
import TaskStatus.Proofs.TextBytes

/-!
# When the output is one line

A run that reports writes one line, and a line feed behind it. Whether that is one line is a matter
of the title, which comes from one of four sources: it is fixed, it is the report of a failure, it
is a value printed as compact JSON, or it is a string that a backup holds. Only the last one may
hold a line feed (`newline_mem_title_iff`), and only the line of text passes it on: the object for
Waybar is printed, and printed text has no control characters.

So the output is one line **unless** a string with a line feed is written as text
(`BrokenTitle`); escaping is left to the printer of the object, and the line of text has none.
-/

namespace TaskStatus

/-- Bytes are one line: they hold one line feed, as the last byte. -/
def OneLine (b : Bytes) : Prop := b.count Bytes.newline = 1 ∧ b.getLast? = some Bytes.newline

instance (b : Bytes) : Decidable (OneLine b) := by unfold OneLine; infer_instance

theorem oneLine_append_newline_iff {line : String} :
    OneLine (Bytes.ofText (line ++ "\n")) ↔ '\n' ∉ line.toList := by
  have hend : Bytes.ofText "\n" = [Bytes.newline] := by decide
  rw [← Bytes.newline_mem_ofText_iff, Bytes.ofText_append, hend, OneLine, List.count_append]
  simp [List.count_eq_zero]

namespace CurrentTask

/-! ### Titles without a line feed -/

/-- The words for a text that gives no task. -/
theorem TextError.printable_message (e : TextError) : Json.Printable e.message.toList := by
  rcases e with ⟨cause, line, column⟩ | p
  · have hcause : Json.Printable cause.message.toList := by cases cause <;> decide
    rw [TextError.message, Json.SyntaxError.toList_message]
    simp only [Json.printable_append, Json.printable_toDigits, hcause]
    decide
  · cases p <;> decide

/-- A title has a line feed only if it is a string of the document that has one: every other title is
fixed or printed. -/
theorem newline_mem_titleOf_iff {entity : List (String × Json)} :
    '\n' ∈ (titleOf entity).toList ↔
      ∃ title, Json.find? "title" entity = some (.string title) ∧ '\n' ∈ title.toList := by
  rw [titleOf]
  split
  · next title h => simp [h]
  · next h => simp [h]
  · next h => simp [h]
  · next v hne _ h =>
    refine iff_of_false (Json.printable_compact v).newline_not_mem ?_
    rintro ⟨title, htitle, -⟩
    exact hne title (Option.some.inj (h.symm.trans htitle))

/-- The titles that content gives: one that has a line feed is a string, under the key of the task
that the content tracks. -/
theorem newline_mem_title_iff {content : Bytes} :
    '\n' ∈ (report (ofBytes content)).title.toList ↔
      ∃ text doc key entity title, content.text? = some text ∧ Json.parse text = .ok doc ∧
        Tracks doc key entity ∧ Json.find? "title" entity = some (.string title) ∧
        '\n' ∈ title.toList := by
  constructor
  · intro h
    rcases ofBytes_cases content with ⟨-, ho⟩ | ⟨text, e, -, -, ho⟩ | ⟨text, t, htext, hparse, ho⟩
    · rw [ho] at h
      exact absurd h (by decide)
    · rw [ho, report, FileError.message, toList_title_ofMessage] at h
      refine absurd h (Json.Printable.newline_not_mem ?_)
      exact Json.printable_append.2 ⟨by decide, e.printable_message⟩
    · rw [ho, report] at h
      obtain ⟨doc, hdoc, hextract⟩ := parse_eq_ok_iff.1 hparse
      rcases extract_eq_ok hextract with ⟨key, entity, htracks, rfl⟩ | rfl
      · obtain ⟨title, htitle, hmem⟩ := newline_mem_titleOf_iff.1 h
        exact ⟨text, doc, key, entity, title, htext, hdoc, htracks, htitle, hmem⟩
      · exact absurd h (by decide)
  · rintro ⟨text, doc, key, entity, title, htext, hdoc, htracks, htitle, hmem⟩
    have hparse := parse_eq_ok_iff.2 ⟨doc, hdoc, htracks.extract_eq⟩
    rw [report_ofBytes_of_parse_eq_ok htext hparse]
    exact newline_mem_titleOf_iff.2 ⟨title, htitle, hmem⟩

/-! ### The line that is written -/

/-- The object for Waybar is printed on one line, whatever it holds. -/
theorem printable_render_waybar (t : CurrentTask) : Json.Printable (t.render .waybar).toList := by
  show Json.Printable (WaybarStatus.line _).toList
  rw [WaybarStatus.line, String.toList_ofList]
  simpa using Json.printable_memberChars _

theorem newline_mem_render_text_iff {t : CurrentTask} :
    '\n' ∈ (t.render .text).toList ↔ '\n' ∈ t.title.toList := by
  show '\n' ∈ ("SP: " ++ t.title).toList ↔ _
  simp [String.toList_append]

/-- **What breaks a line**: nothing but a title with a line feed that is written as text. -/
theorem newline_mem_render_iff {t : CurrentTask} {mode : Mode} :
    '\n' ∈ (t.render mode).toList ↔ mode = .text ∧ '\n' ∈ t.title.toList := by
  cases mode with
  | text => simp [newline_mem_render_text_iff]
  | waybar => simp [(printable_render_waybar t).newline_not_mem]

end CurrentTask

/-- **A broken title**: the selected backup of a directory can be read and tracks a task whose title
is a string with a line feed. -/
def BrokenTitle (t : FileTree) (dir : Option Path) : Prop :=
  ∃ d b content text doc key entity title, dir = some d ∧ Selected t.fileSystem d b ∧
    t.read b.path = .ok content ∧ content.text? = some text ∧ Json.parse text = .ok doc ∧
    CurrentTask.Tracks doc key entity ∧ Json.find? "title" entity = some (.string title) ∧
    '\n' ∈ title.toList

/-- A title is broken by what the content of the selected backup gives. -/
theorem brokenTitle_iff_of_read {t : FileTree} {d : Path} {b : Backup} {content : Bytes}
    (hsel : Selected t.fileSystem d b) (hread : t.read b.path = .ok content) :
    BrokenTitle t (some d) ↔
      '\n' ∈ (CurrentTask.report (CurrentTask.ofBytes content)).title.toList := by
  rw [CurrentTask.newline_mem_title_iff]
  constructor
  · rintro ⟨d', b', content', text, doc, key, entity, title, hd, hsel', hread', h⟩
    obtain rfl : d = d' := Option.some.inj hd
    obtain rfl : b = b' := hsel.unique hsel'
    obtain rfl : content = content' := Except.ok.inj (hread.symm.trans hread')
    exact ⟨text, doc, key, entity, title, h⟩
  · rintro ⟨text, doc, key, entity, title, h⟩
    exact ⟨d, b, content, text, doc, key, entity, title, rfl, hsel, hread, h⟩

theorem Obstacle.printable_message_error (o : Obstacle) :
    Json.Printable o.error.message.toList := by
  cases o <;> decide

theorem newline_mem_currentStatus_iff {t : FileTree} {dir : Option Path} :
    '\n' ∈ (currentStatus t.fileSystem dir).title.toList ↔ BrokenTitle t dir := by
  rcases unavailable_or_selected t.fileSystem dir with h | ⟨d, b, rfl, hsel⟩
  · rw [currentStatus_of_unavailable h]
    refine iff_of_false (by decide) ?_
    rintro ⟨d, b, -, -, -, -, -, -, rfl, hsel, -⟩
    exact hsel.not_unavailable h
  · rw [currentStatus_of_selected hsel]
    rcases hsel.read_cases with ⟨content, hread⟩ | ⟨place, obstacle, -, hread⟩
    · rw [CurrentTask.ofFile_of_read_eq_ok hread, brokenTitle_iff_of_read hsel hread]
    · -- the words for an obstacle are one line, and no content has a title
      rw [CurrentTask.report_ofFile_of_read_eq_error hread, CurrentTask.toList_title_ofMessage]
      refine iff_of_false (Json.Printable.newline_not_mem ?_) ?_
      · exact Json.printable_append.2 ⟨by decide, obstacle.printable_message_error⟩
      · rintro ⟨d', b', content, text, doc, key, entity, title, hd, hsel', hread', -⟩
        obtain rfl : d = d' := Option.some.inj hd
        obtain rfl : b = b' := hsel.unique hsel'
        cases hread.symm.trans hread'

namespace Setting

/-- **When the output is one line**, for every run in a file tree that ends well, shows neither help
nor version and can write: always for Waybar, and as text unless the selected backup has a broken
title. -/
theorem run_output_oneLine_iff (environment : Environment) (t : FileTree) (stamp : String)
    (args : List Bytes) (hhelp : Request.parse args ≠ .help)
    (hversion : Request.parse args ≠ .version)
    (hexit : (run ⟨environment, t.fileSystem, stamp, none⟩ args).exitCode = 0) :
    ∃ o, Reports args o ∧
      (OneLine (Bytes.ofText (run ⟨environment, t.fileSystem, stamp, none⟩ args).output) ↔
        o.mode = .waybar ∨ ¬ BrokenTitle t (environment.backupDirectory o.directory)) := by
  rcases run_cases ⟨environment, t.fileSystem, stamp, none⟩ args with
    ⟨o, ho, hr⟩ | ⟨hreq, -⟩ | ⟨hreq, -⟩ | ⟨-, hr⟩
  · refine ⟨o, ho, ?_⟩
    rw [hr] at hexit ⊢
    rcases report_cases ⟨environment, t.fileSystem, stamp, none⟩ o with ⟨-, hb⟩ | ⟨-, events, hf⟩
    · rw [hb] at hexit
      cases hexit
    · rw [hf]
      -- the line feed behind the line is written by the run, so the line itself must have none
      show OneLine (Bytes.ofText (line _ _ _ ++ "\n")) ↔ _
      rw [oneLine_append_newline_iff, line, CurrentTask.newline_mem_render_iff,
        newline_mem_currentStatus_iff, not_and_or]
      refine or_congr_left ?_
      cases o.mode <;> simp
  · exact absurd hreq hhelp
  · exact absurd hreq hversion
  · rw [hr] at hexit
    cases hexit

/-- A tree with one backup, which tracks a task with a line feed in its title. -/
def twoLineTree : FileTree :=
  FileTree.empty.apply (.write (Path.ofText "b/a.json") (Bytes.ofText
    "\x7b\"task\":\x7b\"currentTaskId\":\"i\",\"entities\":\x7b\"i\":\x7b\"title\":\"a\\nb\"\x7d\x7d\x7d\x7d")
    ⟨0, 0, by decide⟩)

/-- Its title takes two lines as text. -/
theorem not_oneLine_output_twoLineTree :
    let args := ["--backup-dir", "b"].map Bytes.ofText
    (run ⟨{}, twoLineTree.fileSystem, "nogit", none⟩ args).output = "SP: a\nb\n" ∧
      ¬ OneLine (Bytes.ofText (run ⟨{}, twoLineTree.fileSystem, "nogit", none⟩ args).output) := by
  decide +kernel

/-- The same tree, with the arguments for Waybar. -/
theorem oneLine_output_twoLineTree_waybar :
    let args := ["--waybar", "--backup-dir", "b"].map Bytes.ofText
    Request.parse args ≠ .help ∧ Request.parse args ≠ .version ∧
      (run ⟨{}, twoLineTree.fileSystem, "nogit", none⟩ args).exitCode = 0 ∧
      OneLine (Bytes.ofText (run ⟨{}, twoLineTree.fileSystem, "nogit", none⟩ args).output) := by
  intro args
  have hhelp : Request.parse args ≠ .help := by decide +kernel
  have hversion : Request.parse args ≠ .version := by decide +kernel
  have hexit : (run ⟨{}, twoLineTree.fileSystem, "nogit", none⟩ args).exitCode = 0 := by
    decide +kernel
  refine ⟨hhelp, hversion, hexit, ?_⟩
  obtain ⟨o, ho, hiff⟩ := run_output_oneLine_iff {} twoLineTree "nogit" args hhelp hversion hexit
  refine hiff.2 (Or.inl ?_)
  have hparse : Reports args ⟨true, some (Path.ofText "b"), 0⟩ := Or.inl (by decide +kernel)
  rw [ho.unique hparse]
  rfl

end Setting

end TaskStatus
