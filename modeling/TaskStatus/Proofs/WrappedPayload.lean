import Mathlib.Data.List.Forall2
import TaskStatus.Proofs.Nesting
import TaskStatus.Proofs.TextMeaning

/-!
# Payloads inside a wrapper

A backup has its payload at the top or as the member `data` of a wrapper, and both forms give the
same task (`CurrentTask.parse_wrapped`). This holds of texts: the text of an object stands, as it
is, behind the key `data` among other members, which are written in any way that the reader accepts.

What carries it is that texts are read alike wherever they stand, as long as they do not nest too
deep (`Json.parse_objectText`): the members of an object are the values that their texts have by
themselves. One level is taken by the wrapper, so of the 127 levels 126 are left for each member.
-/

namespace TaskStatus

namespace Json

/-- A member of an object as it is written, with the white space around the key and the value. -/
structure Spelling where
  /-- The text of the key, with its quotation marks. -/
  key : String
  /-- The text of the value. -/
  value : String

/-- The text of a member. -/
def Spelling.text (s : Spelling) : String := s.key ++ ":" ++ s.value

/-- **The text of an object** with some members. -/
def objectText (ss : List Spelling) : String :=
  "\x7b" ++ ",".intercalate (ss.map Spelling.text) ++ "\x7d"

/-- **What a member is read as**, by its key and its value: both are documents by themselves, and
the value leaves a level for the object. -/
structure Spelling.Spells (s : Spelling) (m : String × Json) : Prop where
  /-- The key is read as a string. -/
  key : parse s.key = .ok (.string m.1)
  /-- The value is read. -/
  value : parse s.value = .ok m.2
  /-- It nests at most 126 deep. -/
  nesting_le : nesting s.value ≤ 126

/-! ### Members inside an object -/

/-- The text of a string stands between quotation marks. -/
theorem ValueText.exists_stringText {numeral : List Char → Number → Prop} {depth : Nat}
    {cs : List Char} {s : String} (h : ValueText numeral depth cs (.string s)) :
    ∃ quoted, StringText quoted s.toList ∧ cs = '"' :: (quoted ++ ['"']) := by
  cases h with
  | string hquoted => exact ⟨_, by rwa [String.toList_ofList], rfl⟩

/-- **What a member writes**, by its key and its value: the key is read as a string, and the value is
the text of a document that nests at most so deep. -/
structure Spelling.Writes (depth : Nat) (s : Spelling) (m : String × Json) : Prop where
  /-- The key is read as a string. -/
  key : parse s.key = .ok (.string m.1)
  /-- The value is the text of a document. -/
  value : DocumentText NumeralOf depth s.value.toList m.2

theorem Spelling.Spells.writes {s : Spelling} {m : String × Json} (h : s.Spells m) :
    s.Writes 126 m :=
  ⟨h.key, (parse_eq_ok_iff.1 h.value).nesting_le_iff.1 h.nesting_le⟩

theorem Spelling.Writes.spells {s : Spelling} {m : String × Json} (h : s.Writes 126 m) :
    s.Spells m :=
  ⟨h.key, parse_eq_ok_iff.2 (h.value.deepen (by decide)), h.value.nesting_le_iff.2 h.value⟩

theorem Spelling.Writes.deepen {depth depth' : Nat} {s : Spelling} {m : String × Json}
    (hle : depth ≤ depth') (h : s.Writes depth m) : s.Writes depth' m :=
  ⟨h.key, h.value.deepen hle⟩

/-- The text of a member belongs to the grammar of members, behind and in front of white space. -/
theorem Spelling.Writes.exists_memberText {depth : Nat} {s : Spelling} {m : String × Json}
    (h : s.Writes depth m) :
    ∃ before cs after, Insignificant before ∧ MemberText NumeralOf depth cs m ∧
      Insignificant after ∧ s.text.toList = before ++ (cs ++ after) := by
  have htext : s.text.toList = s.key.toList ++ ':' :: s.value.toList := by
    rw [text, String.toList_append, String.toList_append, List.append_assoc]
    rfl
  have hvalue := h.value
  have hkey := parse_eq_ok_iff.1 h.key
  rw [htext]
  generalize s.key.toList = key at hkey
  generalize s.value.toList = value at hvalue
  obtain ⟨hbefore, hstring, hbetween⟩ := hkey
  obtain ⟨hbetween', hv, hafter⟩ := hvalue
  obtain ⟨quoted, hquoted, rfl⟩ := hstring.exists_stringText
  have hm := MemberText.mk hquoted hbetween hbetween' hv
  rw [String.ofList_toList] at hm
  refine ⟨_, _, _, hbefore, hm, hafter, ?_⟩
  simp only [List.append_assoc, List.cons_append, List.nil_append]

/-- **The texts of members make a text of members**, separated by commas. -/
theorem membersText_intercalate {depth : Nat} {s : Spelling} {ss : List Spelling}
    {m : String × Json} {ms : List (String × Json)} (hs : s.Writes depth m)
    (hss : List.Forall₂ (Spelling.Writes depth) ss ms) :
    MembersText NumeralOf depth (",".intercalate ((s :: ss).map Spelling.text)).toList
      (m :: ms) := by
  induction hss generalizing s m with
  | nil =>
    obtain ⟨before, cs, after, hbefore, hm, hafter, htext⟩ := hs.exists_memberText
    rw [List.map_singleton, String.intercalate_singleton, htext]
    exact .last hbefore hm hafter
  | cons hs' _ ih =>
    obtain ⟨before, cs, after, hbefore, hm, hafter, htext⟩ := hs.exists_memberText
    rw [List.map_cons, List.map_cons, String.intercalate_cons_cons, String.toList_append,
      String.toList_append, htext, List.append_assoc, List.append_assoc, List.append_assoc]
    exact .cons hbefore hm hafter (ih hs')

/-- **The text of an object writes its members**, one level deeper than they are. -/
theorem documentText_objectText {depth : Nat} {ss : List Spelling} {ms : List (String × Json)}
    (h : List.Forall₂ (Spelling.Writes depth) ss ms) :
    DocumentText NumeralOf (depth + 1) (objectText ss).toList (ofMembers ms) := by
  obtain ⟨members, hsettles, hmembers⟩ := exists_settles ms
  have hvalue : ValueText NumeralOf (depth + 1) (objectText ss).toList (ofMembers ms) := by
    rw [hmembers, objectText, String.toList_append, String.toList_append]
    cases h with
    | nil =>
      cases hmembers
      exact .emptyObject insignificant_nil
    | cons hs hss => exact .object (membersText_intercalate hs hss) hsettles
  rw [← List.append_nil (objectText ss).toList]
  exact .mk insignificant_nil hvalue insignificant_nil

/-- **An object is read member by member**, each as it is read by itself. -/
theorem parse_objectText {ss : List Spelling} {ms : List (String × Json)}
    (h : List.Forall₂ Spelling.Spells ss ms) : parse (objectText ss) = .ok (ofMembers ms) :=
  parse_eq_ok_iff.2 (documentText_objectText (h.imp fun _ _ ↦ Spelling.Spells.writes))

/-- A key that one of the written members has, and none behind it, has the value of this member. -/
theorem find?_reverse_append_cons {key : String} {v : Json} {before after : List (String × Json)}
    (hafter : ∀ m ∈ after, m.1 ≠ key) :
    find? key (before ++ (key, v) :: after).reverse = some v := by
  have hnone : find? key after.reverse = none :=
    find?_eq_none_of_forall_ne fun m hm ↦ hafter m (List.mem_reverse.1 hm)
  rw [List.reverse_append, List.reverse_cons, List.append_assoc, find?_append, hnone,
    Option.none_or]
  exact find?_first (key, v) before.reverse

end Json

namespace CurrentTask

open Json (Spelling objectText)

/-- The payload of a wrapper is what its member `data` is, and that of a payload is the payload
itself. So both are searched for the task in the same way. -/
theorem extract_wrapper {members ms : List (String × Json)}
    (hdata : Json.find? "data" members = some (.object ms)) (hbare : Json.find? "data" ms = none) :
    extract (.object members) = extract (.object ms) := by
  have hwrapper : payload (.object members) = .ok ms := by
    simp only [payload, objectAt, Json.members?, hdata]
  have hpayload : payload (.object ms) = .ok ms := by
    simp only [payload, objectAt, Json.members?, hbare]
  rw [extract, extract, hwrapper, hpayload]

/-- Members whose keys are other than `data`, as they are written and as they are read. -/
theorem exists_spells {ss : List Spelling}
    (h : ∀ s ∈ ss, ∃ m, s.Spells m ∧ m.1 ≠ "data") :
    ∃ ms, List.Forall₂ Spelling.Spells ss ms ∧ ∀ m ∈ ms, m.1 ≠ "data" := by
  induction ss with
  | nil => exact ⟨[], .nil, List.forall_mem_nil _⟩
  | cons s ss ih =>
    obtain ⟨⟨m, hm, hne⟩, hss⟩ := List.forall_mem_cons.1 h
    obtain ⟨ms, hms, hnes⟩ := ih hss
    exact ⟨m :: ms, .cons hm hms, List.forall_mem_cons.2 ⟨hne, hnes⟩⟩

/-- **A wrapper is transparent**: the text of an object that has a payload `p` as its member `data`,
among any members with other keys, gives the same as `p` itself, a task or the words for the same
part that is no object. The payload is the text of an object without a key `data`; it and the values
of the other members nest at most 126 deep. -/
theorem parse_wrapped {payload : Spelling} {ms : List (String × Json)}
    {before after : List Spelling} (hpayload : payload.Spells ("data", .object ms))
    (hbare : Json.find? "data" ms = none)
    (hothers : ∀ s ∈ before ++ after, ∃ m, s.Spells m ∧ m.1 ≠ "data") :
    parse (objectText (before ++ payload :: after)) = parse payload.value ∧
      ((∃ t, parse payload.value = .ok t) ∨
        ∃ p, parse payload.value = .error (.misshapen p)) := by
  have hp : parse payload.value = (extract (.object ms)).mapError .misshapen :=
    parse_eq_of_json_eq_ok hpayload.value
  obtain ⟨hall, hall'⟩ := List.forall_mem_append.1 hothers
  obtain ⟨written, hwritten, -⟩ := exists_spells hall
  obtain ⟨written', hwritten', hne⟩ := exists_spells hall'
  have hread := Json.parse_objectText
    (List.rel_append hwritten (List.Forall₂.cons hpayload hwritten'))
  obtain ⟨members, hsettles, hmembers⟩ :=
    Json.exists_settles (written ++ ("data", .object ms) :: written')
  have hdata : Json.find? "data" members = some (.object ms) := by
    rw [hsettles.find?_eq, Json.find?_reverse_append_cons hne]
  refine ⟨?_, ?_⟩
  · rw [hp, ← extract_wrapper hdata hbare, ← hmembers]
    exact parse_eq_of_json_eq_ok hread
  · rw [hp]
    rcases extract (.object ms) with p | t
    · exact .inr ⟨p, rfl⟩
    · exact .inl ⟨t, rfl⟩

/-- A wrapper with the time of the backup in front of the payload, and brackets in a string behind
it. The key of the payload is written with an escape sequence. -/
theorem parse_wrapped_timestamp :
    let before : List Spelling := [⟨"\"timestamp\"", "1700000000000"⟩]
    let payload : Spelling := ⟨"\n\"d\\u0061ta\" ",
      "\x7b\"task\":\x7b\"currentTaskId\":\"i\",\"entities\":\x7b\"i\":\x7b\x7d\x7d\x7d\x7d"⟩
    let after : List Spelling := [⟨"\"\"", "[\"]]\",[]]"⟩]
    (∃ ms, payload.Spells ("data", .object ms) ∧ Json.find? "data" ms = none) ∧
      (∀ s ∈ before ++ after, ∃ m, s.Spells m ∧ m.1 ≠ "data") ∧
      parse (objectText (before ++ payload :: after)) = .ok ⟨"Unknown Task", some "i"⟩ := by
  intro before payload after
  have hcompact {text : String} {v : Json} (hv : Json.Writable Json.maxDepth v)
      (htext : v.compact = text) : Json.parse text = .ok v := htext ▸ Json.parse_compact hv
  have hkey : Json.parse "\n\"d\\u0061ta\" " = .ok (.string "data") := rfl
  have hp : Json.parse payload.value = .ok (.object [("task", .object
      [("currentTaskId", .string "i"), ("entities", .object [("i", .object [])])])]) := by
    have hentities : Json.Writable 125 (.object [("i", .object [])]) :=
      .object (by decide) (List.forall_mem_singleton.2
        (.object List.Pairwise.nil (List.forall_mem_nil _)))
    refine hcompact (.object (by decide) (List.forall_mem_singleton.2
      (.object (by decide) (List.forall_mem_cons.2 ⟨.string "i", List.forall_mem_singleton.2
        hentities⟩)))) (by decide +kernel)
  have hpayload : payload.Spells ("data", _) := ⟨hkey, hp, by decide +kernel⟩
  have htime : Json.parse "1700000000000" = .ok (.number (.integer 1700000000000)) :=
    hcompact (.integer (by simp [Json.FitsWord])) (by decide +kernel)
  have hlast : Json.parse "[\"]]\",[]]" = .ok (.array [.string "]]", .array []]) :=
    hcompact (.array (List.forall_mem_cons.2 ⟨.string "]]", List.forall_mem_singleton.2
      (.array (List.forall_mem_nil _))⟩)) (by decide +kernel)
  have hothers : ∀ s ∈ before ++ after, ∃ m, s.Spells m ∧ m.1 ≠ "data" := by
    refine List.forall_mem_cons.2 ⟨?_, List.forall_mem_singleton.2 ?_⟩
    · exact ⟨("timestamp", _), ⟨rfl, htime, by decide +kernel⟩, by decide⟩
    · exact ⟨("", _), ⟨rfl, hlast, by decide +kernel⟩, by decide⟩
  refine ⟨⟨_, hpayload, rfl⟩, hothers, ?_⟩
  rw [(parse_wrapped hpayload rfl hothers).1]
  exact (parse_eq_of_json_eq_ok hp).trans rfl

end CurrentTask

end TaskStatus
