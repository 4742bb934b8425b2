import TaskStatus.Proofs.DocumentReading
import TaskStatus.Proofs.PrintedReading
import TaskStatus.Task.Extract

/-!
# What a text says

The task of a text depends on the value that the text writes, and on nothing else about it: not on
white space, on the order of members, on members that are written again, or on how the characters
of strings are escaped (`parse_eq_mapError_extract`). A text that is not well formed writes no
value, and that is what is reported of it, whatever it may hold elsewhere
(`parse_malformed_of_not_wellFormed`).

Both follow from what the reader accepts, `Json.parse_eq_ok_iff`: in the one direction the reader
finds the value that is written, in the other it finds none that is not.
-/

namespace TaskStatus.CurrentTask

open Json (DocumentText ValueText StringText CharText UnitText IntegerText Insignificant WellFormed
  Begins Writable escapeChar insignificant_nil settles_iff memberText_chars
  stringText_flatMap_escapeChar)

theorem parse_eq_of_json_eq_ok {text : String} {doc : Json} (h : Json.parse text = .ok doc) :
    parse text = (extract doc).mapError .misshapen := by
  rw [parse, h]

theorem parse_eq_of_json_eq_error {text : String} {e : Json.SyntaxError}
    (h : Json.parse text = .error e) : parse text = .error (.malformed e) := by
  rw [parse, h]

/-- **Every text of a document reports its task.** Let the numbers that are written be integers in
`-2^63 ≤ n < 2^64`, by their decimal digits, and the arrays and objects that are written nest at most
127 deep. This is asked of every value of the text, also of one that a later member with the same key
replaces, and so is no part of the document. Then the text gives what the document gives, be it a
task or a part that is no object. -/
theorem parse_eq_mapError_extract {text : String} {doc : Json}
    (h : DocumentText IntegerText 127 text.toList doc) :
    parse text = (extract doc).mapError .misshapen := by
  have hread : DocumentText Json.NumeralOf Json.maxDepth text.toList doc :=
    h.mono fun _ _ ↦ IntegerText.numeralOf
  exact parse_eq_of_json_eq_ok (Json.parse_eq_ok_iff.2 hread)

/-- A backup that writes its section on tasks twice. The second one replaces the first; it gives
the key of the task by the two halves of a surrogate pair, behind the entities, which have it as
it is. -/
def rewrittenBackup : String :=
  "\x7b \"task\": 0,\n\"task\":\x7b\"entities\":\x7b\"😀\":\x7b\"title\":\"T\"\x7d\x7d," ++
    "\"currentTaskId\":\"\\uD83D\\uDE00\"\x7d\x7d"

/-- Its task is that of the document. -/
theorem parse_rewrittenBackup :
    DocumentText IntegerText 127 rewrittenBackup.toList
        (.object [("task", .object [("currentTaskId", .string "😀"),
          ("entities", .object [("😀", .object [("title", .string "T")])])])]) ∧
      parse rewrittenBackup = .ok ⟨"T", some "😀"⟩ := by
  have hkey (s : String) : StringText (s.toList.flatMap escapeChar) s.toList :=
    stringText_flatMap_escapeChar s.toList
  have hpair : StringText ['\\', 'u', 'D', '8', '3', 'D', '\\', 'u', 'D', 'E', '0', '0'] ['😀'] := by
    have hhigh : UnitText ['D', '8', '3', 'D'] 0xD83D :=
      .mk (i := 13) (j := 8) (k := 3) (l := 13) (by decide) (by decide) (by decide) (by decide)
    have hlow : UnitText ['D', 'E', '0', '0'] 0xDE00 :=
      .mk (i := 13) (j := 14) (k := 0) (l := 0) (by decide) (by decide) (by decide) (by decide)
    have hchar : CharText _ '😀' :=
      .pair hhigh (by decide) (by decide) hlow (by decide) (by decide) (by decide)
    exact .cons hchar .nil
  have hentities : Writable 125 (.object [("😀", .object [("title", .string "T")])]) :=
    .object (by decide) fun m hm ↦ by
      obtain rfl := List.mem_singleton.1 hm
      exact .object (by decide) fun m hm ↦ List.mem_singleton.1 hm ▸ .string "T"
  have hsection : ValueText IntegerText 126 _ _ :=
    .object
      (.cons insignificant_nil (memberText_chars "entities" hentities.valueText_chars)
        insignificant_nil
        (.last insignificant_nil
          (.mk (hkey "currentTaskId") insignificant_nil insignificant_nil (.string hpair))
          insignificant_nil))
      (settles_iff.2 rfl)
  have hzero : ValueText IntegerText 126 ['0'] (.number (.integer 0)) :=
    .number ⟨0, by simp [Json.FitsWord], rfl, rfl⟩
  have htext : DocumentText IntegerText 127 rewrittenBackup.toList _ :=
    .mk insignificant_nil
      (.object
        (.cons (by simp : Insignificant [' '])
          (.mk (hkey "task") insignificant_nil (by simp : Insignificant [' ']) hzero)
          insignificant_nil
          (.last (by simp : Insignificant ['\n'])
            (.mk (hkey "task") insignificant_nil insignificant_nil hsection) insignificant_nil))
        (settles_iff.2 rfl))
      insignificant_nil
  exact ⟨htext, (parse_eq_mapError_extract htext).trans rfl⟩

/-- **A text that is not well formed is malformed**, and so is one whose arrays and objects nest
more than 127 deep: it is reported as a syntax error, never as a task, as idle or as misshapen. -/
theorem parse_malformed_of_not_wellFormed {text : String}
    (h : ¬ WellFormed 127 text.toList) : ∃ e, parse text = .error (.malformed e) := by
  rcases hread : Json.parse text with e | doc
  · exact ⟨e, parse_eq_of_json_eq_error hread⟩
  · have htext := Json.parse_eq_ok_iff.1 hread
    exact absurd ⟨doc, htext.mono Json.numeralText_of_numeralOf⟩ h

/-- A byte-order mark is no white space, and no value begins with it. -/
theorem parse_byteOrderMark :
    ¬ WellFormed 127 "\uFEFF\x7b\x7d".toList ∧
      ∃ e, parse "\uFEFF\x7b\x7d" = .error (.malformed e) := by
  have hmalformed : ¬ WellFormed 127 "\uFEFF\x7b\x7d".toList := by
    intro h
    obtain ⟨c, ds, hskip, hc⟩ := h.begins
    obtain ⟨rfl, -⟩ : '\uFEFF' = c ∧ ['\x7b', '\x7d'] = ds := List.cons.inj hskip
    revert hc
    simp [Begins]
  exact ⟨hmalformed, parse_malformed_of_not_wellFormed hmalformed⟩

end TaskStatus.CurrentTask
