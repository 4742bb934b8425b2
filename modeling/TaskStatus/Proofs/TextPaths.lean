import TaskStatus.Proofs.TaskResolution
import TaskStatus.Proofs.WrappedPayload

/-!
# Texts inside a text

Where a text stands in another one, as it is written: under the keys of a path that leads from an
object to a member, and from there to one of its members (`StandsUnder`). Around it may be white
space and other members, which are written in any way that the reader accepts.

**A text under a path is read as the value under this path** (`StandsUnder.exists_documentText`), at
some depth. How deep the whole text may nest is asked once, of this text
(`StandsUnder.exists_parse_eq`), and not of what is in it.
-/

namespace TaskStatus.Json

/-! ### Values under a path -/

/-- What is under a path of keys in a value. -/
def at? : Json → List String → Option Json
  | v, [] => some v
  | v, key :: path => (v.member? key).bind fun w ↦ w.at? path

theorem at?_cons (v : Json) (key : String) (path : List String) :
    v.at? (key :: path) = (v.member? key).bind fun w ↦ w.at? path := rfl

theorem at?_singleton (v : Json) (key : String) : v.at? [key] = v.member? key := by
  rw [at?_cons]
  cases v.member? key <;> rfl

/-- The first key of a path leads to a member. -/
theorem at?_cons_eq_some_iff {v w : Json} {key : String} {path : List String} :
    v.at? (key :: path) = some w ↔ ∃ u, v.member? key = some u ∧ u.at? path = some w :=
  Option.bind_eq_some_iff

/-! ### Texts under a path -/

/-- A text with white space around it. -/
inductive Padded (inner : String) : String → Prop where
  | mk {before after : String} : Insignificant before.toList → Insignificant after.toList →
      Padded inner (before ++ inner ++ after)

theorem Padded.refl (inner : String) : Padded inner inner := by
  have h : Padded inner ("" ++ inner ++ "") := .mk insignificant_nil insignificant_nil
  rwa [String.empty_append, String.append_empty] at h

/-- **A text stands under a path** in another one: it is all of it, up to white space, or it stands
under the rest of the path in the value of a member. The key of this member may be written with
escapes, and it may be that of members in front of it, but not of one behind it. -/
inductive StandsUnder (inner : String) : List String → String → Prop where
  | here {text : String} : Padded inner text → StandsUnder inner [] text
  | member {key : String} {path : List String} {s : Spelling} {before after : List Spelling}
      {ms ns : List (String × Json)} {text : String} :
      parse s.key = .ok (.string key) → StandsUnder inner path s.value →
      List.Forall₂ Spelling.Spells before ms → List.Forall₂ Spelling.Spells after ns →
      (∀ n ∈ ns, n.1 ≠ key) → Padded (objectText (before ++ s :: after)) text →
      StandsUnder inner (key :: path) text

/-- The text of an object in which no member has a key. -/
inductive LacksMember (key : String) : String → Prop where
  | mk {ss : List Spelling} {ms : List (String × Json)} {text : String} :
      List.Forall₂ Spelling.Spells ss ms → (∀ m ∈ ms, m.1 ≠ key) → Padded (objectText ss) text →
      LacksMember key text

/-! ### Members with quoted keys -/

/-- An object as a member writes one level more than its own members. -/
theorem Spelling.Writes.object {depth : Nat} {ss : List Spelling} {ms : List (String × Json)}
    (key : String) (h : List.Forall₂ (Spelling.Writes depth) ss ms) :
    (⟨quote key, objectText ss⟩ : Spelling).Writes (depth + 1) (key, ofMembers ms) :=
  ⟨parse_quote key, documentText_objectText h⟩

/-- What stands under a path in a value stands under the key in front of it in the object. -/
theorem StandsUnder.quoted (before after : List Spelling) {inner key value : String}
    {path : List String} {ms ns : List (String × Json)}
    (hbefore : List.Forall₂ Spelling.Spells before ms) (h : StandsUnder inner path value)
    (hafter : List.Forall₂ Spelling.Spells after ns) (hne : ∀ n ∈ ns, n.1 ≠ key) :
    StandsUnder inner (key :: path) (objectText (before ++ ⟨quote key, value⟩ :: after)) :=
  .member (s := ⟨quote key, value⟩) (parse_quote key) h hbefore hafter hne (.refl _)

/-- Nothing else need be in the object. -/
theorem StandsUnder.only {inner key value : String} {path : List String}
    (h : StandsUnder inner path value) :
    StandsUnder inner (key :: path) (objectText [⟨quote key, value⟩]) :=
  .quoted [] [] .nil h .nil (List.forall_mem_nil _)

/-! ### Reading them -/

section

variable {depth : Nat} {inner text : String} {v : Json}

theorem Padded.documentText (h : Padded inner text)
    (hinner : DocumentText NumeralOf depth inner.toList v) :
    DocumentText NumeralOf depth text.toList v := by
  obtain ⟨hbefore, hafter⟩ := h
  rw [String.toList_append, String.toList_append]
  generalize inner.toList = cs at hinner
  obtain ⟨hbefore', hv, hafter'⟩ := hinner
  have htext := DocumentText.mk (insignificant_append.2 ⟨hbefore, hbefore'⟩) hv
    (insignificant_append.2 ⟨hafter', hafter⟩)
  simpa only [List.append_assoc] using htext

/-- A text that nests at most 127 deep is read as what it writes, at whatever depth that is. -/
theorem DocumentText.parse_eq_ok (h : DocumentText NumeralOf depth text.toList v)
    (hnesting : nesting text ≤ 127) : parse text = .ok v :=
  parse_eq_ok_iff.2 (h.nesting_le_iff.1 hnesting)

/-- **What stands under a path is the value under this path**: a text in which the text of a value
stands is that of a value in which this value is. -/
theorem StandsUnder.exists_documentText {path : List String} (h : StandsUnder inner path text)
    (hinner : DocumentText NumeralOf depth inner.toList v) :
    ∃ depth' doc, DocumentText NumeralOf depth' text.toList doc ∧ doc.at? path = some v := by
  induction h with
  | here hpadded => exact ⟨depth, v, hpadded.documentText hinner, rfl⟩
  | @member key path s before after ms ns text hkey _ hbefore hafter hne hpadded ih =>
    obtain ⟨depth', w, hw, hat⟩ := ih
    -- a depth for the member and the others around it
    have hdeepen : ∀ t n, Spelling.Spells t n → t.Writes (max 126 depth') n := fun _ _ h ↦
      h.writes.deepen (Nat.le_max_left _ _)
    have hmember : s.Writes (max 126 depth') (key, w) := ⟨hkey, hw.deepen (Nat.le_max_right _ _)⟩
    have htext := documentText_objectText
      (List.rel_append (hbefore.imp hdeepen) (.cons hmember (hafter.imp hdeepen)))
    obtain ⟨members, hsettles, hmembers⟩ := exists_settles (ms ++ (key, w) :: ns)
    have hfind : (ofMembers (ms ++ (key, w) :: ns)).member? key = some w := by
      rw [hmembers, member?_object, hsettles.find?_eq, find?_reverse_append_cons hne]
    exact ⟨_, _, hpadded.documentText htext, by rw [at?_cons, hfind, Option.bind_some, hat]⟩

/-- So it is read there, if the text around it does not nest too deep. -/
theorem StandsUnder.exists_parse_eq {path : List String} (h : StandsUnder inner path text)
    (hinner : DocumentText NumeralOf depth inner.toList v) (hnesting : nesting text ≤ 127) :
    ∃ doc, parse text = .ok doc ∧ doc.at? path = some v := by
  obtain ⟨_, doc, htext, hat⟩ := h.exists_documentText hinner
  exact ⟨doc, htext.parse_eq_ok hnesting, hat⟩

/-- The text of an object without a key is read as one. -/
theorem LacksMember.exists_parse_eq {key : String} (h : LacksMember key text) :
    ∃ doc, parse text = .ok doc ∧ doc.member? key = none := by
  obtain ⟨hss, hne, hpadded⟩ := h
  have htext := documentText_objectText (hss.imp fun _ _ ↦ Spelling.Spells.writes)
  refine ⟨_, parse_eq_ok_iff.2 (hpadded.documentText htext), ?_⟩
  obtain ⟨members, hsettles, hmembers⟩ := exists_settles _
  rw [hmembers, member?_object, hsettles.find?_eq]
  exact find?_eq_none_of_forall_ne fun m hm ↦ hne m (List.mem_reverse.1 hm)

end

end TaskStatus.Json
