import TaskStatus.Proofs.PrintedReading
import TaskStatus.Proofs.StatusLine

/-!
# The object for Waybar

The line for Waybar is an object that is read back: behind its opening brace the reader finds the
members that were printed, in the order in which they stand (`WaybarStatus.writesObject_line`). So a
line determines what a module shows (`WaybarStatus.line_inj`), and with it the title of the task and
whether there is one; the key of the task is not in it.
-/

namespace TaskStatus

namespace Json

/-- **A text that writes an object**: behind its opening brace the reader finds these members, in
this order, up to the end of the text. -/
def WritesObject (text : String) (written : List (String × Json)) : Prop :=
  ∃ body, text.toList = '{' :: body ∧
    readMembers (readValue text.toList.length (maxDepth - 1)) text.toList.length body =
      .ok (written, [])

theorem WritesObject.parse_eq {text : String} {written : List (String × Json)}
    (h : WritesObject text written) : parse text = .ok (ofMembers written) := by
  obtain ⟨body, htext, hread⟩ := h
  have hvalue : readValue text.toList.length maxDepth ('{' :: body) =
      .ok (ofMembers written, []) := by
    show (readMembers (readValue _ (maxDepth - 1)) _ body).andThen _ = _
    rw [hread, Reading.andThen_ok]
  rw [← htext] at hvalue
  rw [parse, readDocument, hvalue]
  rfl

end Json

theorem StatusClass.name_inj {a b : StatusClass} : a.name = b.name ↔ a = b := by
  cases a <;> cases b <;> decide

namespace WaybarStatus

/-- The members of the object are written in the order in which they are given. -/
theorem writesObject_line (w : WaybarStatus) : Json.WritesObject w.line w.members := by
  have hchars : w.line.toList = '{' :: (Json.memberChars w.members ++ ['}']) := by
    rw [line, String.toList_ofList, List.cons_append]
  have hmembers : Json.MembersText Json.NumeralOf (Json.maxDepth - 1)
      (Json.memberChars w.members) w.members := by
    refine Json.membersText_memberChars (List.cons_ne_nil _ _) ?_
    simp [members, Json.chars, Json.valueText_quoteChars]
  refine ⟨_, hchars, hmembers.readMembers_append ?_ []⟩
  rw [hchars, List.length_cons, List.length_append]
  omega

/-- The object that is read from the line. -/
theorem parse_line (w : WaybarStatus) :
    Json.parse w.line = .ok (.object [("class", .string w.styling.name), ("text", .string w.text),
      ("tooltip", .string w.tooltip)]) := by
  have hbelow : "class" < "text" := by decide
  have habove : ¬ "tooltip" < "text" := by decide
  rw [w.writesObject_line.parse_eq]
  simp only [Json.ofMembers, members, List.foldl_cons, List.foldl_nil, Json.insert, hbelow, habove,
    String.reduceEq, if_true, if_false]

theorem line_inj {w w' : WaybarStatus} : w.line = w'.line ↔ w = w' := by
  constructor
  · intro h
    have hparse := congrArg Json.parse h
    rw [w.parse_line, w'.parse_line] at hparse
    have hobject := Except.ok.inj hparse
    simp only [Json.object.injEq, List.cons.injEq, Prod.mk.injEq, Json.string.injEq, true_and,
      and_true, StatusClass.name_inj] at hobject
    obtain ⟨hclass, htext, htooltip⟩ := hobject
    cases w
    cases w'
    subst hclass htext htooltip
    rfl
  · rintro rfl
    rfl

end WaybarStatus

namespace CurrentTask

/-- A module shows the title, and whether there is a task. -/
theorem waybarStatus_eq_iff {t u : CurrentTask} :
    u.waybarStatus = t.waybarStatus ↔ u.title = t.title ∧ u.id.isSome = t.id.isSome := by
  constructor
  · intro h
    have htext : "SP: " ++ u.title = "SP: " ++ t.title := congrArg WaybarStatus.text h
    have hclass : (if u.isActive then StatusClass.active else .idle) =
        if t.isActive then .active else .idle := congrArg WaybarStatus.styling h
    refine ⟨String.append_right_inj _ |>.1 htext, ?_⟩
    show u.isActive = t.isActive
    cases hu : u.isActive <;> cases ht : t.isActive <;> simp_all
  · rintro ⟨htitle, hid⟩
    have hactive : u.isActive = t.isActive := hid
    rw [waybarStatus, waybarStatus, statusText, statusText, htitle, hactive]

/-- **The line for Waybar is read back**, for every title and every key. It is printed without
control characters; it writes the members `text`, `tooltip` and `class` in this order, and the
object that is read from it has these and no others; and the first of them is the line of text.
Two tasks have one line if they have one title and both are active or both are not. -/
theorem render_waybar_roundTrip (t : CurrentTask) :
    let text := Json.string (t.render .text)
    let tooltip := Json.string ("Current Task: " ++ t.title ++ "\n(Source: Last Backup)")
    let styling := Json.string (if t.id.isSome then "active" else "idle")
    Json.Printable (t.render .waybar).toList ∧
    Json.WritesObject (t.render .waybar)
      [("text", text), ("tooltip", tooltip), ("class", styling)] ∧
    Json.parse (t.render .waybar) =
      .ok (.object [("class", styling), ("text", text), ("tooltip", tooltip)]) ∧
    ∀ u : CurrentTask, u.render .waybar = t.render .waybar ↔
      u.title = t.title ∧ u.id.isSome = t.id.isSome := by
  intro text tooltip styling
  have hstyling : Json.string t.waybarStatus.styling.name = styling := by
    show Json.string (if t.isActive then StatusClass.active else .idle).name = _
    rw [apply_ite StatusClass.name]
    rfl
  refine ⟨printable_render_waybar t, ?_, ?_, fun u ↦ ?_⟩
  · rw [← hstyling]
    exact t.waybarStatus.writesObject_line
  · rw [← hstyling]
    exact t.waybarStatus.parse_line
  · exact WaybarStatus.line_inj.trans waybarStatus_eq_iff

end CurrentTask

end TaskStatus
