import TaskStatus.Json.Compact
import TaskStatus.Proofs.DocumentReading

/-!
# Printed values are texts of the grammar

What the printer writes for a value is a text of this value: it has no white space, the escapes of
the printer are escapes of the grammar, and the members of an object stand in the order of their
keys, each once. So every value that can be written has a text, and printing it is a way to write
it (`Writable.valueText_chars`).

The members that are printed need not be those of a value: `membersText_memberChars` holds of
members in any order, as they are written.
-/

namespace TaskStatus.Json

/-! ### Strings -/

/-- **One character between quotation marks** is written by itself or by an escape sequence. -/
theorem charText_escapeChar (c : Char) : CharText (escapeChar c) c := by
  unfold escapeChar
  -- seven escapes by one letter, the escapes by digits, and the character itself
  iterate 7
    split
    · next h =>
      subst h
      exact .letter (by decide)
  split
  · next h =>
    have hc : c.toNat < 32 := h
    have hlower {n : Nat} (hn : n < 16) : HexDigit (hexDigit n) n := ⟨hn, .inl rfl⟩
    have hunit : UnitText ['0', '0', hexDigit (c.toNat / 16), hexDigit (c.toNat % 16)]
        (0 * 0x1000 + 0 * 0x100 + c.toNat / 16 * 0x10 + c.toNat % 16) :=
      .mk (hlower (by decide)) (hlower (by decide)) (hlower (by omega)) (hlower (by omega))
    have hvalue : 0 * 0x1000 + 0 * 0x100 + c.toNat / 16 * 0x10 + c.toNat % 16 = c.toNat := by omega
    rw [hvalue] at hunit
    exact .unit hunit
  · next hquote hbackslash _ _ _ _ _ hblank => exact .raw (Char.not_lt.1 hblank) hquote hbackslash

theorem stringText_flatMap_escapeChar (cs : List Char) : StringText (cs.flatMap escapeChar) cs := by
  induction cs with
  | nil => exact .nil
  | cons c cs ih =>
    rw [List.flatMap_cons]
    exact .cons (charText_escapeChar c) ih

/-! ### Values -/

variable {numeral : List Char → Number → Prop} {depth : Nat}

theorem valueText_quoteChars (s : String) :
    ValueText numeral depth (quoteChars s.toList) (.string s) := by
  have htext : ValueText numeral depth _ _ := .string (stringText_flatMap_escapeChar s.toList)
  rwa [String.ofList_toList] at htext

theorem itemsText_itemChars {items : List Json} (hne : items ≠ [])
    (h : ∀ v ∈ items, ValueText numeral depth v.chars v) :
    ItemsText numeral depth (itemChars items) items := by
  induction items with
  | nil => exact absurd rfl hne
  | cons v items ih =>
    obtain ⟨hv, hitems⟩ := List.forall_mem_cons.1 h
    cases items with
    | nil =>
      have htext := ItemsText.last insignificant_nil hv insignificant_nil
      rwa [List.append_nil] at htext
    | cons w items =>
      rw [itemChars]
      · exact .cons insignificant_nil hv insignificant_nil (ih (List.cons_ne_nil _ _) hitems)
      · simp

theorem memberText_chars (k : String) {v : Json} (h : ValueText numeral depth v.chars v) :
    MemberText numeral depth (quoteChars k.toList ++ ':' :: v.chars) (k, v) := by
  have htext := MemberText.mk (stringText_flatMap_escapeChar k.toList) insignificant_nil
    insignificant_nil h
  rw [String.ofList_toList] at htext
  simpa [quoteChars] using htext

/-- Members are printed as they are written, in any order. -/
theorem membersText_memberChars {members : List (String × Json)} (hne : members ≠ [])
    (h : ∀ m ∈ members, ValueText numeral depth m.2.chars m.2) :
    MembersText numeral depth (memberChars members) members := by
  induction members with
  | nil => exact absurd rfl hne
  | cons m members ih =>
    obtain ⟨hm, hmembers⟩ := List.forall_mem_cons.1 h
    obtain ⟨k, v⟩ := m
    cases members with
    | nil =>
      have htext := MembersText.last insignificant_nil (memberText_chars k hm) insignificant_nil
      rwa [List.append_nil] at htext
    | cons n members =>
      have htext := MembersText.cons insignificant_nil (memberText_chars k hm) insignificant_nil
        (ih (List.cons_ne_nil _ _) hmembers)
      rw [memberChars]
      · simpa using htext
      · simp

/-- **The values that can be written**: integers fit into 64 bits, the members of an object stand in
the order of their keys, and arrays and objects nest at most so deep. -/
inductive Writable : Nat → Json → Prop where
  | null {depth : Nat} : Writable depth .null
  | bool {depth : Nat} (b : Bool) : Writable depth (.bool b)
  | integer {depth : Nat} {k : Int} : FitsWord k → Writable depth (.number (.integer k))
  | string {depth : Nat} (s : String) : Writable depth (.string s)
  | array {depth : Nat} {items : List Json} :
      (∀ v ∈ items, Writable depth v) → Writable (depth + 1) (.array items)
  | object {depth : Nat} {members : List (String × Json)} :
      members.Pairwise (fun m n ↦ m.1 < n.1) → (∀ m ∈ members, Writable depth m.2) →
      Writable (depth + 1) (.object members)

/-- **A value that can be written is written by printing it.** -/
theorem Writable.valueText_chars {v : Json} (h : Writable depth v) :
    ValueText IntegerText depth v.chars v := by
  induction h with
  | null =>
    rw [chars]
    exact .nullWord
  | bool b =>
    cases b with
    | true =>
      rw [chars]
      exact .trueWord
    | false =>
      rw [chars]
      exact .falseWord
  | @integer _ k hk =>
    rw [chars]
    exact .number ⟨k, hk, rfl, rfl⟩
  | string s =>
    rw [chars]
    exact valueText_quoteChars s
  | @array _ items _ ih =>
    rw [chars]
    by_cases hne : items = []
    · rw [hne]
      exact .emptyArray insignificant_nil
    · exact .array (itemsText_itemChars hne ih)
  | @object _ members hsorted _ ih =>
    rw [chars]
    by_cases hne : members = []
    · rw [hne]
      exact .emptyObject insignificant_nil
    · exact .object (membersText_memberChars hne ih) (settles_self hsorted)

/-- The text that is printed is that of a document, without white space around it. -/
theorem Writable.documentText_compact {v : Json} (h : Writable depth v) :
    DocumentText NumeralOf depth v.compact.toList v := by
  have hvalue : ValueText NumeralOf depth v.chars v :=
    h.valueText_chars.mono fun _ _ ↦ IntegerText.numeralOf
  have htext := DocumentText.mk insignificant_nil hvalue insignificant_nil
  rw [List.nil_append, List.append_nil] at htext
  rw [compact, String.toList_ofList]
  exact htext

/-- **Reading undoes printing** for every value that can be written. -/
theorem parse_compact {v : Json} (h : Writable maxDepth v) : parse v.compact = .ok v :=
  parse_eq_ok_iff.2 h.documentText_compact

theorem documentText_quote (s : String) :
    DocumentText NumeralOf depth (quote s).toList (.string s) := by
  have htext := (Writable.string s : Writable depth (.string s)).documentText_compact
  rwa [compact, chars] at htext

/-- A text is read from its quotation. -/
theorem parse_quote (s : String) : parse (quote s) = .ok (.string s) :=
  parse_eq_ok_iff.2 (documentText_quote s)

end TaskStatus.Json
