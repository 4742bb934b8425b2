import TaskStatus.Proofs.ByteOrder
import TaskStatus.Proofs.PrintedText
import TaskStatus.Proofs.TextPaths

/-!
# Titles that are no strings

The title of a task may be any value. One that is no string is shown as its compact text, and this
is faithful for values whose numbers are integers of 64 bits (`Json.Integral`): the text is read as
the value again, so different values are shown differently (`CurrentTask.parse_printed_title`).

* such a value can be written at some depth (`Json.Integral.exists_writable`): its keys are in the
  order of their bytes, which is the order of texts;
* a backup writes a title where it has the text of the title (`CurrentTask.WritesTitle`), under the
  key that it names as that of the current task;
* every value that nests at most 123 deep is the title of some backup
  (`CurrentTask.writesTitle_titledBackup`): four objects stand around it.
-/

namespace TaskStatus

namespace Json

/-! ### Values of integers -/

/-- **Values whose numbers are integers** in `-2^63 ≤ n < 2^64`. The members of each object stand in
the order of the bytes of their keys, one for each key. -/
inductive Integral : Json → Prop where
  | null : Integral .null
  | bool (b : Bool) : Integral (.bool b)
  | integer {k : Int} : FitsWord k → Integral (.number (.integer k))
  | string (s : String) : Integral (.string s)
  | array {items : List Json} : (∀ v ∈ items, Integral v) → Integral (.array items)
  | object {members : List (String × Json)} :
      members.Pairwise (fun m n ↦ Bytes.ofText m.1 < Bytes.ofText n.1) →
      (∀ m ∈ members, Integral m.2) → Integral (.object members)

theorem Writable.deepen {depth depth' : Nat} {v : Json} (hle : depth ≤ depth')
    (h : Writable depth v) : Writable depth' v := by
  induction h generalizing depth' with
  | null => exact .null
  | bool b => exact .bool b
  | integer hk => exact .integer hk
  | string s => exact .string s
  | array _ ih =>
    obtain ⟨e, rfl⟩ := Nat.exists_eq_add_one.2 (Nat.zero_lt_of_lt hle)
    exact .array fun v hv ↦ ih v hv (Nat.le_of_succ_le_succ hle)
  | object hsorted _ ih =>
    obtain ⟨e, rfl⟩ := Nat.exists_eq_add_one.2 (Nat.zero_lt_of_lt hle)
    exact .object hsorted fun m hm ↦ ih m hm (Nat.le_of_succ_le_succ hle)

/-- Values of a list that can be written can be written at one depth, the greatest of theirs. -/
theorem exists_forall_writable {α : Type} {value : α → Json} {xs : List α}
    (h : ∀ x ∈ xs, ∃ depth, Writable depth (value x)) :
    ∃ depth, ∀ x ∈ xs, Writable depth (value x) := by
  induction xs with
  | nil => exact ⟨0, List.forall_mem_nil _⟩
  | cons x xs ih =>
    obtain ⟨⟨d, hx⟩, hxs⟩ := List.forall_mem_cons.1 h
    obtain ⟨e, hxs⟩ := ih hxs
    exact ⟨max d e, List.forall_mem_cons.2 ⟨hx.deepen (Nat.le_max_left d e),
      fun y hy ↦ (hxs y hy).deepen (Nat.le_max_right d e)⟩⟩

/-- **Values of integers can be written.** -/
theorem Integral.exists_writable {v : Json} (h : v.Integral) : ∃ depth, Writable depth v := by
  induction h with
  | null => exact ⟨0, .null⟩
  | bool b => exact ⟨0, .bool b⟩
  | integer hk => exact ⟨0, .integer hk⟩
  | string s => exact ⟨0, .string s⟩
  | array _ ih =>
    obtain ⟨depth, hitems⟩ := exists_forall_writable ih
    exact ⟨depth + 1, .array hitems⟩
  | object hordered _ ih =>
    obtain ⟨depth, hmembers⟩ := exists_forall_writable ih
    exact ⟨depth + 1, .object (hordered.imp Bytes.ofText_lt_ofText_iff.1) hmembers⟩

/-- **Reading undoes printing** for values of integers whose text does not nest too deep. -/
theorem Integral.parse_compact {v : Json} (h : v.Integral) (hnesting : nesting v.compact ≤ 127) :
    parse v.compact = .ok v := by
  obtain ⟨depth, hv⟩ := h.exists_writable
  exact hv.documentText_compact.parse_eq_ok hnesting

end Json

namespace CurrentTask

open Json (Spelling objectText quote)

/-! ### The title in a backup -/

/-- **Where a backup has its payload**: at the top, if there is no member `data`, or in this one. -/
inductive PayloadPath (text : String) : List String → Prop where
  | bare : Json.LacksMember "data" text → PayloadPath text []
  | wrapped : PayloadPath text ["data"]

/-- **A backup whose current task has a title**, as it is written: the payload names the key of the
task, which may be written with escapes, and has the text of the title under this key. -/
inductive WritesTitle (key title text : String) : Prop where
  | mk {path : List String} {id : String} :
      PayloadPath text path → Json.parse id = .ok (.string key) → key ≠ "" →
      Json.StandsUnder id (path ++ ["task", "currentTaskId"]) text →
      Json.StandsUnder title (path ++ ["task", "entities", key, "title"]) text →
      WritesTitle key title text

/-- What is in the payload as it is written is in the payload that is found. -/
theorem PayloadPath.at?_payloadOf {text : String} {path rest : List String} {doc v : Json}
    (h : PayloadPath text path) (hread : Json.parse text = .ok doc)
    (hat : doc.at? (path ++ rest) = some v) : (payloadOf doc).at? rest = some v := by
  cases h with
  | bare hlacks =>
    obtain ⟨doc', hread', hdata⟩ := hlacks.exists_parse_eq
    obtain rfl : doc = doc' := Except.ok.inj (hread.symm.trans hread')
    rwa [payloadOf, hdata]
  | wrapped =>
    obtain ⟨w, hdata, hw⟩ := Json.at?_cons_eq_some_iff.1 hat
    rwa [payloadOf, hdata]

/-- **A document that has a key and a title under it** gives this key and this title. -/
theorem extract_eq_of_at? {doc v : Json} {key : String} (hkey : key ≠ "")
    (hid : (payloadOf doc).at? ["task", "currentTaskId"] = some (.string key))
    (htitle : (payloadOf doc).at? ["task", "entities", key, "title"] = some v) :
    ∃ entity, Json.find? "title" entity = some v ∧
      extract doc = .ok ⟨titleOf entity, some key⟩ := by
  obtain ⟨task, htask, hid⟩ := Json.at?_cons_eq_some_iff.1 hid
  obtain ⟨task', htask', htitle⟩ := Json.at?_cons_eq_some_iff.1 htitle
  obtain rfl : task = task' := Option.some.inj (htask.symm.trans htask')
  obtain ⟨entities, hentities, htitle⟩ := Json.at?_cons_eq_some_iff.1 htitle
  obtain ⟨_, hentity, htitle⟩ := Json.at?_cons_eq_some_iff.1 htitle
  rw [Json.at?_singleton] at hid htitle
  obtain ⟨entity, rfl, hfind⟩ := Json.exists_of_member?_eq_some htitle
  have hsection : sectionOf doc = task := by rw [sectionOf, htask, Option.getD_some]
  have hpoints : PointsAt doc key := ⟨by rw [hsection, hid], hkey⟩
  have hall : entitiesOf doc = entities := by
    rw [entitiesOf, hsection, hentities, Option.getD_some]
  exact ⟨entity, hfind, hpoints.extract_eq_ok (by rw [hall, hentity])⟩

/-- **A title is found as it is read by itself**, in every backup that writes it. -/
theorem WritesTitle.exists_parse_eq {key title text : String} {depth : Nat} {v : Json}
    (h : WritesTitle key title text)
    (htitle : Json.DocumentText Json.NumeralOf depth title.toList v)
    (hnesting : Json.nesting text ≤ 127) :
    ∃ entity, Json.find? "title" entity = some v ∧
      parse text = .ok ⟨titleOf entity, some key⟩ := by
  obtain ⟨hpath, hid, hkey, hstands, hstands'⟩ := h
  obtain ⟨doc, hread, hat⟩ := hstands.exists_parse_eq (Json.parse_eq_ok_iff.1 hid) hnesting
  obtain ⟨doc', hread', hat'⟩ := hstands'.exists_parse_eq htitle hnesting
  obtain rfl : doc = doc' := Except.ok.inj (hread.symm.trans hread')
  obtain ⟨entity, hfind, hextract⟩ :=
    extract_eq_of_at? hkey (hpath.at?_payloadOf hread hat) (hpath.at?_payloadOf hread hat')
  exact ⟨entity, hfind, by rw [parse_eq_of_json_eq_ok hread, hextract]; rfl⟩

/-! ### A backup for each title -/

/-- A backup with nothing but a current task and its title. -/
def titledBackup (key title : String) : String :=
  objectText [⟨quote "task", objectText [⟨quote "currentTaskId", quote key⟩,
    ⟨quote "entities", objectText [⟨quote key, objectText [⟨quote "title", title⟩]⟩]⟩]⟩]

/-- **Every title has a backup**, if its text nests at most 123 deep: four objects are around it. -/
theorem writesTitle_titledBackup {key title : String} {v : Json} (hkey : key ≠ "")
    (hread : Json.parse title = .ok v) (hnesting : Json.nesting title ≤ 123) :
    WritesTitle key title (titledBackup key title) ∧
      Json.nesting (titledBackup key title) ≤ 127 := by
  have hdoc := (Json.parse_eq_ok_iff.1 hread).nesting_le_iff.1 hnesting
  have htitle : (⟨quote "title", title⟩ : Spelling).Writes 123 ("title", v) :=
    ⟨Json.parse_quote _, hdoc⟩
  have hid : (⟨quote "currentTaskId", quote key⟩ : Spelling).Writes 125
      ("currentTaskId", .string key) :=
    ⟨Json.parse_quote _, Json.documentText_quote key⟩
  have hentities := Spelling.Writes.object "entities" (.cons (.object key (.cons htitle .nil)) .nil)
  have htask := Spelling.Writes.object "task" (.cons hid (.cons hentities .nil))
  have htext := Json.documentText_objectText (.cons htask .nil)
  have hspells {s : Spelling} {m : String × Json} (h : s.Writes 125 m) : s.Spells m :=
    (h.deepen (by decide)).spells
  have hlacks : Json.LacksMember "data" (titledBackup key title) :=
    .mk (.cons htask.spells .nil) (List.forall_mem_singleton.2 (by simp)) (.refl _)
  have hcurrent :
      Json.StandsUnder (quote key) ["task", "currentTaskId"] (titledBackup key title) :=
    .only (.quoted [] [_] .nil (.here (.refl _)) (.cons (hspells hentities) .nil)
      (List.forall_mem_singleton.2 (by simp)))
  have hstands : Json.StandsUnder title ["task", "entities", key, "title"]
      (titledBackup key title) :=
    .only (.quoted [_] [] (.cons (hspells hid) .nil) (.only (.only (.here (.refl _)))) .nil
      (List.forall_mem_nil _))
  exact ⟨.mk (.bare hlacks) (Json.parse_quote key) hkey hcurrent hstands,
    htext.nesting_le_iff.2 htext⟩

/-- **A title that is no string is shown faithfully.** Let it be neither a string nor `null`, with
integers of 64 bits as its numbers, and nested at most 127 deep:

* a backup that has its compact text as the title of the current task, and nests at most 127 deep,
  is reported with this text, as it is, and the key of the task;
* the text has none of the control characters that JSON escapes, U+0000 to U+001F;
* it is read as the value again, and no other such value has the same text. -/
theorem parse_printed_title {v : Json} (hv : v.Integral) (hnull : v ≠ .null)
    (hstring : ∀ s, v ≠ .string s) (hnesting : Json.nesting v.compact ≤ 127) :
    (∀ text key, WritesTitle key v.compact text → Json.nesting text ≤ 127 →
      parse text = .ok ⟨v.compact, some key⟩) ∧
    Json.Printable v.compact.toList ∧
    Json.parse v.compact = .ok v ∧
    ∀ w : Json, w.Integral → w.compact = v.compact → w = v := by
  have hread := hv.parse_compact hnesting
  refine ⟨fun text key htext hdepth ↦ ?_, Json.printable_compact v, hread, fun w hw heq ↦ ?_⟩
  · obtain ⟨entity, hfind, hparse⟩ :=
      htext.exists_parse_eq (Json.parse_eq_ok_iff.1 hread) hdepth
    rw [hparse, ← titled_iff.1 (.printed hfind hnull hstring)]
  · have hread' := hw.parse_compact (heq ▸ hnesting)
    rw [heq] at hread'
    exact Except.ok.inj (hread'.symm.trans hread)

/-- The least and the greatest integer, and an object whose keys stand in the order of their bytes,
which would be another one by units of 16 bits. -/
theorem parse_printed_title_limits :
    let v : Json := .array [.number (.integer (-9223372036854775808)),
      .number (.integer 18446744073709551615),
      .object [("\uFFFD", .string "\n\""), ("😀", .null)]]
    let title := "[-9223372036854775808,18446744073709551615," ++
      "\x7b\"\uFFFD\":\"\\n\\\"\",\"😀\":null\x7d]"
    v.Integral ∧ v ≠ .null ∧ (∀ s, v ≠ .string s) ∧ Json.nesting v.compact ≤ 127 ∧
      v.compact = title ∧ WritesTitle "i" title (titledBackup "i" title) ∧
      parse (titledBackup "i" title) = .ok ⟨title, some "i"⟩ := by
  intro v title
  have hmembers : (Json.object [("\uFFFD", .string "\n\""), ("😀", .null)]).Integral :=
    .object (by decide) (List.forall_mem_cons.2 ⟨.string _, List.forall_mem_singleton.2 .null⟩)
  have hv : v.Integral :=
    .array (List.forall_mem_cons.2 ⟨.integer (by simp [Json.FitsWord]),
      List.forall_mem_cons.2 ⟨.integer (by simp [Json.FitsWord]),
        List.forall_mem_singleton.2 hmembers⟩⟩)
  have htitle : v.compact = title := by decide +kernel
  have hnesting : Json.nesting v.compact ≤ 123 := by decide +kernel
  have hle : Json.nesting v.compact ≤ 127 := Nat.le_trans hnesting (by decide)
  have hshown := parse_printed_title hv Json.noConfusion (fun _ ↦ Json.noConfusion) hle
  obtain ⟨hwrites, hdepth⟩ :=
    writesTitle_titledBackup (by decide : "i" ≠ "") hshown.2.2.1 hnesting
  rw [← htitle]
  exact ⟨hv, Json.noConfusion, fun _ ↦ Json.noConfusion, hle, rfl, hwrites,
    hshown.1 _ _ hwrites hdepth⟩

end CurrentTask

end TaskStatus
