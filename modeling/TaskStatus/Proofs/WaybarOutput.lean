import TaskStatus.Proofs.ArgumentGrammar
import TaskStatus.Proofs.PathWalk
import TaskStatus.Proofs.ReplacedArguments
import TaskStatus.Proofs.WaybarLine

/-!
# The status bar always gets its object

A module of Waybar runs the program with the flag for Waybar first, and may have anything behind it.
There are two ways to a report then. Arguments that are understood are a row of choices, of which
that flag is one; arguments that are not are replaced, and the flag is what is kept of them. So the
mode is the object for Waybar in every case (`Reports.waybar`).

Nothing is left that could go wrong: the first argument is text, and a backup that is found in a
tree has one of the times of the tree, so diagnostics can be told if all of these have timestamps
(`Timely.not_untellable`).
-/

namespace TaskStatus

open Argument

/-! ### The mode -/

namespace Request

/-- The flag for Waybar in front of arguments that are understood chooses the mode. -/
theorem waybar_of_parse_eq_status {rest : List Bytes} {o : Options}
    (h : parse (waybarFlag :: rest) = .status o) : o.waybar = true := by
  obtain ⟨cs, tail, rfl, hend⟩ := exists_choices_append rest
  -- the flag is one choice more, in front of those that follow it
  have hrow : waybarFlag :: (cs.flatMap Choice.written ++ tail) =
      (Choice.waybar :: cs).flatMap Choice.written ++ tail := rfl
  rw [hrow, parse_choices] at h
  by_cases hcs : Choice.Compatible (.waybar :: cs)
  · rw [if_pos hcs] at h
    rcases ofArguments_cases (Options.ofChoices (.waybar :: cs)) hend with
      ⟨-, hstatus⟩ | ⟨q, -, -, -, -, hasked⟩ | hunclear
    · obtain rfl : Options.ofChoices (.waybar :: cs) = o :=
        Request.status.inj (hstatus.symm.trans h)
      show decide (Choice.waybar ∈ Choice.waybar :: cs) = true
      exact decide_eq_true List.mem_cons_self
    · exact absurd (hasked.symm.trans h) (q.request_ne_status o)
    · cases hunclear.symm.trans h
  · rw [if_neg hcs] at h
    cases h

end Request

/-- **The flag for Waybar in front decides**, whether the arguments are understood or not. -/
theorem Reports.waybar {rest : List Bytes} {o : Options} (h : Reports (waybarFlag :: rest) o) :
    o.waybar = true := by
  rcases h with h | ⟨-, h⟩
  · exact Request.waybar_of_parse_eq_status h
  · rw [(Options.fallback_eq_some_iff.1 h).2]
    show decide (some waybarFlag = some waybarFlag) = true
    exact decide_eq_true rfl

/-- Arguments with the flag for Waybar in front are not lost. -/
theorem not_lost_waybarFlag (rest : List Bytes) : ¬ Lost (waybarFlag :: rest) := by
  rintro ⟨-, a, more, hargs, htext⟩
  obtain ⟨rfl, rfl⟩ := List.cons.inj hargs
  exact absurd htext (by decide)

/-! ### Times that can be told -/

namespace FileTree

/-- All files of a tree were last modified at times that have a timestamp. -/
def Timely (t : FileTree) : Prop :=
  ∀ place node, t.node? place = some node → ∀ m ∈ node.modified?, ¬ m.OutOfRange

/-- A backup that is found is a file of the tree. -/
theorem exists_node?_of_find {t : FileTree} {dir : Path} {b : Backup}
    (h : Backup.find t.fileSystem dir = .ok (some b)) :
    ∃ place node, t.node? place = some node ∧ node.modified? = some b.modified := by
  obtain ⟨place, node, hresolve, hm⟩ := stat_eq_file_iff.1 (selected_iff.2 h).stat_eq
  exact ⟨place, node, (resolve_eq_ok_iff.1 hresolve).2, hm⟩

/-- Diagnostics can always be told in a tree whose times have timestamps. -/
theorem Timely.not_untellable {t : FileTree} (h : t.Timely) (s : Setting)
    (hs : s.files = t.fileSystem) (o : Options) : ¬ s.Untellable o := by
  rintro ⟨-, dir, b, -, hfind, hrange⟩
  rw [hs] at hfind
  obtain ⟨place, node, hnode, hm⟩ := exists_node?_of_find hfind
  exact h place node hnode b.modified hm hrange

/-- It is enough to look at the table. -/
theorem timely_of_nodes {t : FileTree} (h : ∀ e ∈ t.nodes, ∀ m ∈ e.2.modified?, ¬ m.OutOfRange) :
    t.Timely := by
  intro place node hnode
  by_cases hroot : place = []
  · subst hroot
    cases hnode
    exact nofun
  · exact h (place, node) (mem_nodes_of_node?_eq_some hroot hnode)

end FileTree

/-! ### The object -/

/-- A text is **an object for Waybar**: it is read as an object with the members `text`, `tooltip`
and `class` and no others, all of them strings; the class is one of the two, and the text begins as
that of a status does. -/
def IsWaybarObject (line : String) : Prop :=
  ∃ text tooltip styling,
    Json.parse line = .ok (.object [("class", .string styling), ("text", .string text),
      ("tooltip", .string tooltip)]) ∧
    (styling = "active" ∨ styling = "idle") ∧ "SP: ".toList <+: text.toList

theorem CurrentTask.isWaybarObject_render (t : CurrentTask) :
    IsWaybarObject (t.render .waybar) := by
  refine ⟨_, _, _, t.waybarStatus.parse_line, ?_, ?_⟩
  · rcases t.waybarStatus.styling with - | -
    · exact Or.inl rfl
    · exact Or.inr rfl
  · show _ <+: ("SP: " ++ t.title).toList
    rw [String.toList_append]
    exact List.prefix_append _ _

namespace Setting

/-- **The status bar always gets its object**, whatever follows the flag for Waybar, in every
environment and over every tree whose times have timestamps: unless help or the version is asked
for, and if standard output can be written, the exit status is zero, and what is written is one
line, which is an object for Waybar. -/
theorem run_waybar_object (environment : Environment) (t : FileTree) (stamp : String)
    (rest : List Bytes) (htimely : t.Timely)
    (hhelp : Request.parse (waybarFlag :: rest) ≠ .help)
    (hversion : Request.parse (waybarFlag :: rest) ≠ .version) :
    let r := run ⟨environment, t.fileSystem, stamp, none⟩ (waybarFlag :: rest)
    r.exitCode = 0 ∧ OneLine (Bytes.ofText r.output) ∧
      ∃ line, r.output = line ++ "\n" ∧ IsWaybarObject line := by
  intro r
  let s : Setting := ⟨environment, t.fileSystem, stamp, none⟩
  obtain ⟨o, ho, hr⟩ | ⟨h, -⟩ | ⟨h, -⟩ | ⟨h, -⟩ := s.run_cases (waybarFlag :: rest)
  · have hmode : o.mode = .waybar := if_pos ho.waybar
    have hline : s.line o.directory o.mode =
        (currentStatus t.fileSystem (environment.backupDirectory o.directory)).render .waybar := by
      rw [hmode]
      rfl
    obtain ⟨h, -⟩ | ⟨-, events, hfinished⟩ := s.report_cases o
    · exact absurd h (htimely.not_untellable s rfl o)
    · have hrun : r = .finished (s.line o.directory o.mode ++ "\n") events :=
        hr.trans hfinished
      rw [hrun, hline]
      refine ⟨rfl, ?_, _, rfl, CurrentTask.isWaybarObject_render _⟩
      exact oneLine_append_newline_iff.2 (CurrentTask.printable_render_waybar _).newline_not_mem
  · exact absurd h hhelp
  · exact absurd h hversion
  · exact absurd h (not_lost_waybarFlag rest)

/-- A flag has no directory behind it, and an argument is no text; the backup has a title of two
lines. -/
theorem run_waybar_object_of_unclear :
    let environment : Environment := { home := some (Bytes.ofText "/h") }
    let t := FileTree.empty.apply (.write
      (Path.ofText "/h/.config/superProductivity/backups/a.json") (Bytes.ofText <|
        "\x7b\"task\":\x7b\"currentTaskId\":\"i\"," ++
          "\"entities\":\x7b\"i\":\x7b\"title\":\"a\\nb\"\x7d\x7d\x7d\x7d")
      ⟨0, 0, by decide⟩)
    let rest := [Bytes.ofText "-vv", [0xFF], Bytes.ofText "--backup-dir"]
    let r := run ⟨environment, t.fileSystem, "nogit", none⟩ (waybarFlag :: rest)
    (currentStatus t.fileSystem environment.defaultDirectory).title = "a\nb" ∧ r.exitCode = 0 ∧
      OneLine (Bytes.ofText r.output) ∧ ∃ line, r.output = line ++ "\n" ∧ IsWaybarObject line := by
  intro environment t rest r
  have htimely : t.Timely := FileTree.timely_of_nodes (by decide +kernel)
  exact ⟨by decide +kernel, run_waybar_object environment t "nogit" rest htimely (by decide +kernel)
    (by decide +kernel)⟩

end Setting

end TaskStatus
