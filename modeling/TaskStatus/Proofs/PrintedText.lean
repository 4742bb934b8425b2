import TaskStatus.Json.Compact

/-!
# Printed values have no control characters

Whatever a JSON value holds, its compact text is made of characters from the blank on. This is a
property of lists of characters that passes through concatenation (`printable_append`), so it is
shown piece by piece, along the printer: one character between quotation marks
(`printable_escapeChar`), numbers of either kind, and then all values by recursion on the tree
(`printable_chars`).

Only `escapeChar` has to do something for it. It escapes every character below the blank, and what
it writes instead are letters, digits and backslashes.
-/

namespace TaskStatus.Json

/-- None of the characters is a control character below the blank. -/
def Printable (cs : List Char) : Prop := ∀ c ∈ cs, ' ' ≤ c

instance (cs : List Char) : Decidable (Printable cs) :=
  List.decidableBAll (' ' ≤ ·) cs

@[simp] theorem printable_nil : Printable [] := fun _ h ↦ absurd h List.not_mem_nil

@[simp] theorem printable_cons {c : Char} {cs : List Char} :
    Printable (c :: cs) ↔ ' ' ≤ c ∧ Printable cs :=
  List.forall_mem_cons

@[simp] theorem printable_append {cs ds : List Char} :
    Printable (cs ++ ds) ↔ Printable cs ∧ Printable ds :=
  List.forall_mem_append

theorem Printable.sublist {cs ds : List Char} (h : Printable ds) (hs : cs.Sublist ds) :
    Printable cs :=
  fun c hc ↦ h c (hs.subset hc)

/-- A line feed is a control character. -/
theorem Printable.newline_not_mem {cs : List Char} (h : Printable cs) : '\n' ∉ cs :=
  fun hmem ↦ absurd (h _ hmem) (by decide)

/-! ### Digits and numbers -/

theorem blank_le_of_isDigit {c : Char} (h : c.isDigit = true) : ' ' ≤ c := by
  rw [Char.isDigit, Bool.and_eq_true, decide_eq_true_eq] at h
  exact UInt32.le_trans (show (32 : UInt32) ≤ 48 by decide) h.1

theorem printable_toDigits (n : Nat) : Printable (Nat.toDigits 10 n) :=
  fun _ hc ↦ blank_le_of_isDigit (Nat.isDigit_of_mem_toDigits (by decide) (by decide) hc)

theorem printable_replicate (n : Nat) : Printable (List.replicate n '0') := by
  intro c hc
  rw [List.eq_of_mem_replicate hc]
  decide

theorem printable_integerChars (n : Int) : Printable (integerChars n) := by
  rw [integerChars]
  split
  · exact printable_cons.2 ⟨by decide, printable_toDigits _⟩
  · exact printable_toDigits _

theorem printable_decimalChars (d : Decimal) : Printable (decimalChars d) := by
  have hdigits : Printable d.digitChars := printable_toDigits d.digits
  have htake (k : Nat) : Printable (d.digitChars.take k) := hdigits.sublist (List.take_sublist k _)
  have hdrop (k : Nat) : Printable (d.digitChars.drop k) := hdigits.sublist (List.drop_sublist k _)
  simp only [decimalChars]
  -- with an exponent; whole; with the point among the digits; with the point before them
  split
  · simp only [printable_append, printable_cons, printable_toDigits, and_true]
    refine ⟨?_, by decide, by split <;> decide⟩
    split
    · next hcs =>
      rw [hcs] at hdigits
      simpa using hdigits
    · exact hdigits
  · split
    · simp [hdigits, printable_replicate]
    · split
      · simp [htake, hdrop]
      · simp [hdigits, printable_replicate]

theorem printable_doubleChars (f : Float) : Printable (doubleChars f) := by
  have hsign : Printable (if f.toBits.toNat < Nat.pow 2 63 then [] else ['-']) := by
    split
    · exact printable_nil
    · simp
  have hvalue : Printable
      (if f == 0 then ['0', '.', '0'] else decimalChars (Binary.ofFloat f).shortest) := by
    split
    · simp
    · exact printable_decimalChars _
  exact printable_append.2 ⟨hsign, hvalue⟩

theorem printable_numberChars (n : Number) : Printable n.chars := by
  cases n with
  | integer n => exact printable_integerChars n
  | double f => exact printable_doubleChars f

/-! ### Strings -/

theorem blank_le_hexDigit {n : Nat} (h : n < 16) : ' ' ≤ hexDigit n :=
  (by decide : ∀ n < 16, ' ' ≤ hexDigit n) n h

/-- **One character between quotation marks**: it is escaped, or it is no control character. -/
theorem printable_escapeChar (c : Char) : Printable (escapeChar c) := by
  unfold escapeChar
  -- seven escapes by one letter, the escapes by digits, and the character itself
  iterate 7 (split; · decide)
  split
  · next h =>
    have hc : c.toNat < 32 := h
    simp only [printable_cons, printable_nil, and_true]
    exact ⟨by decide, by decide, by decide, by decide, blank_le_hexDigit (by omega),
      blank_le_hexDigit (Nat.mod_lt _ (by decide))⟩
  · next h => simpa using h

theorem printable_quoteChars (cs : List Char) : Printable (quoteChars cs) := by
  have hbody : Printable (cs.flatMap escapeChar) := by
    intro d hd
    obtain ⟨c, -, hc⟩ := List.mem_flatMap.1 hd
    exact printable_escapeChar c d hc
  simpa [quoteChars] using hbody

/-! ### Values -/

mutual

/-- **All values are printed without control characters**, by recursion on the tree. -/
theorem printable_chars : (v : Json) → Printable v.chars
  | .null | .bool true | .bool false => by rw [chars]; decide
  | .number n => by
    rw [chars]
    exact printable_numberChars n
  | .string s => by
    rw [chars]
    exact printable_quoteChars s.toList
  | .array items => by
    rw [chars]
    simpa using printable_itemChars items
  | .object members => by
    rw [chars]
    simpa using printable_memberChars members

theorem printable_itemChars : (items : List Json) → Printable (itemChars items)
  | [] => by simp [itemChars]
  | [v] => by
    rw [itemChars]
    exact printable_chars v
  | v :: w :: items => by
    rw [itemChars]
    · simpa using ⟨printable_chars v, printable_itemChars (w :: items)⟩
    · simp

theorem printable_memberChars : (members : List (String × Json)) → Printable (memberChars members)
  | [] => by simp [memberChars]
  | [(k, v)] => by
    rw [memberChars]
    simpa using ⟨printable_quoteChars k.toList, printable_chars v⟩
  | (k, v) :: m :: members => by
    rw [memberChars]
    · simpa using ⟨printable_quoteChars k.toList, printable_chars v,
        printable_memberChars (m :: members)⟩
    · simp

end

theorem printable_compact (v : Json) : Printable v.compact.toList := by
  rw [compact, String.toList_ofList]
  exact printable_chars v

end TaskStatus.Json
