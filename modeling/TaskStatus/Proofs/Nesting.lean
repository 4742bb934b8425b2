import TaskStatus.Proofs.DocumentReading

/-!
# How deep a text nests

`Json.nesting` counts the brackets and braces of a text that are open at once, from its characters
alone: those between quotation marks do not count, and behind a backslash a quotation mark is none.

**The count is the depth of the grammar**: a document is a text of its value with arrays and objects
nested at most so deep exactly if the count does not exceed this (`DocumentText.iff_nesting_le`).
The induction on the grammar goes through characters that *nest so deep wherever they stand*
(`NestsExactly`): they close what they open, so what is in front of them and behind them is counted
as if they were not there.
-/

namespace TaskStatus.Json

/-! ### Counting what is open -/

/-- Where a character of a text stands. -/
inductive Place where
  /-- Between the tokens, or in one that is no string. -/
  | outside
  /-- In a string. -/
  | quoted
  /-- In a string, behind a backslash. -/
  | escaped
  deriving DecidableEq, Repr

/-- Where the next character stands. -/
def Place.next : Place → Char → Place
  | outside, c => if c = '"' then quoted else outside
  | quoted, c => if c = '"' then outside else if c = '\\' then escaped else quoted
  | escaped, _ => quoted

/-- How many arrays and objects are open behind a character. -/
def Place.level : Place → Nat → Char → Nat
  | outside, level, c =>
    if c = '[' ∨ c = '{' then level + 1 else if c = ']' ∨ c = '}' then level - 1 else level
  | _, level, _ => level

/-- How many arrays and objects are open at once, if some are open already. -/
def deepest (place : Place) (level : Nat) : List Char → Nat
  | [] => level
  | c :: cs => max level (deepest (place.next c) (place.level level c) cs)

/-- **How deep arrays and objects nest** in a text. -/
def nesting (text : String) : Nat := deepest .outside 0 text.toList

theorem level_le_deepest (place : Place) (level : Nat) (cs : List Char) :
    level ≤ deepest place level cs := by
  cases cs with
  | nil => exact Nat.le_refl level
  | cons c cs => exact Nat.le_max_left _ _

/-- A character that opens and closes nothing only moves on. -/
theorem deepest_cons {place : Place} {level : Nat} {c : Char} (h : place.level level c = level)
    (cs : List Char) : deepest place level (c :: cs) = deepest (place.next c) level cs := by
  rw [deepest, h]
  exact Nat.max_eq_right (level_le_deepest _ _ _)

/-! ### Characters that close what they open -/

/-- **Characters that nest so deep** wherever they stand between other tokens. -/
def NestsExactly (cs : List Char) (depth : Nat) : Prop :=
  ∀ level rest, deepest .outside level (cs ++ rest) =
    max (level + depth) (deepest .outside level rest)

theorem nestsExactly_nil : NestsExactly [] 0 := fun _ _ ↦
  (Nat.max_eq_right (level_le_deepest _ _ _)).symm

theorem NestsExactly.append {cs ds : List Char} {k l : Nat} (hcs : NestsExactly cs k)
    (hds : NestsExactly ds l) : NestsExactly (cs ++ ds) (max k l) := by
  intro level rest
  rw [List.append_assoc, hcs, hds]
  omega

/-- What nests so deep is all that a whole text counts. -/
theorem NestsExactly.deepest_eq {cs : List Char} {depth : Nat} (h : NestsExactly cs depth) :
    deepest .outside 0 cs = depth := by
  have hend := h 0 []
  rwa [List.append_nil, deepest, Nat.zero_add, Nat.max_zero] at hend

/-- A bracket or brace that opens, and one that closes, around other characters. -/
theorem NestsExactly.enclose {cs : List Char} {depth : Nat} (h : NestsExactly cs depth)
    {opening closing : Char} (hopening : opening = '[' ∨ opening = '{')
    (hclosing : closing = ']' ∨ closing = '}') :
    NestsExactly (opening :: (cs ++ [closing])) (depth + 1) := by
  intro level rest
  have hopen : Place.outside.next opening = .outside ∧
      Place.outside.level level opening = level + 1 := by
    rcases hopening with rfl | rfl <;> exact ⟨rfl, rfl⟩
  have hclose : Place.outside.next closing = .outside ∧
      Place.outside.level (level + 1) closing = level := by
    rcases hclosing with rfl | rfl <;> exact ⟨rfl, rfl⟩
  have hinner := h (level + 1) (closing :: rest)
  rw [deepest, hclose.1, hclose.2] at hinner
  rw [List.cons_append, List.append_assoc, List.singleton_append, deepest, hopen.1, hopen.2, hinner]
  omega

/-- A character that begins no string and opens and closes nothing. -/
def Plain (c : Char) : Prop := c ≠ '"' ∧ c ≠ '[' ∧ c ≠ '{' ∧ c ≠ ']' ∧ c ≠ '}'

instance (c : Char) : Decidable (Plain c) := by unfold Plain; infer_instance

/-- Characters that are all plain. -/
def PlainText (cs : List Char) : Prop := ∀ c ∈ cs, Plain c

instance (cs : List Char) : Decidable (PlainText cs) := List.decidableBAll Plain cs

theorem plainText_cons {c : Char} {cs : List Char} : PlainText (c :: cs) ↔ Plain c ∧ PlainText cs :=
  List.forall_mem_cons

theorem plainText_append {cs ds : List Char} :
    PlainText (cs ++ ds) ↔ PlainText cs ∧ PlainText ds :=
  List.forall_mem_append

theorem Plain.deepest_cons {c : Char} (h : Plain c) (level : Nat) (cs : List Char) :
    deepest .outside level (c :: cs) = deepest .outside level cs := by
  obtain ⟨hquote, hbracket, hbrace, hbracket', hbrace'⟩ := h
  rw [Json.deepest_cons (by simp [Place.level, hbracket, hbrace, hbracket', hbrace']), Place.next,
    if_neg hquote]

theorem PlainText.nestsExactly {cs : List Char} (h : PlainText cs) : NestsExactly cs 0 := by
  induction cs with
  | nil => exact nestsExactly_nil
  | cons c cs ih =>
    obtain ⟨hc, hcs⟩ := plainText_cons.1 h
    intro level rest
    rw [List.cons_append, hc.deepest_cons, ih hcs]

/-- A plain character in front changes nothing. -/
theorem NestsExactly.cons {c : Char} {cs : List Char} {depth : Nat} (hc : Plain c)
    (h : NestsExactly cs depth) : NestsExactly (c :: cs) depth := by
  intro level rest
  rw [List.cons_append, hc.deepest_cons, h]

theorem Insignificant.nestsExactly {cs : List Char} (h : Insignificant cs) : NestsExactly cs 0 := by
  refine PlainText.nestsExactly fun c hc ↦ ?_
  rcases h c hc with rfl | rfl | rfl | rfl <;> decide

/-- White space around characters changes nothing. -/
theorem NestsExactly.pad {before cs after : List Char} {depth : Nat}
    (hbefore : Insignificant before) (h : NestsExactly cs depth) (hafter : Insignificant after) :
    NestsExactly (before ++ (cs ++ after)) depth := by
  have hpad := hbefore.nestsExactly.append (h.append hafter.nestsExactly)
  rwa [Nat.max_zero, Nat.zero_max] at hpad

/-- More behind a comma is counted by itself. -/
theorem NestsExactly.pad_comma {before cs after ds : List Char} {k l : Nat}
    (hbefore : Insignificant before) (h : NestsExactly cs k) (hafter : Insignificant after)
    (hds : NestsExactly ds l) :
    NestsExactly (before ++ (cs ++ (after ++ ',' :: ds))) (max k l) := by
  have hmore := (h.pad hbefore hafter).append (hds.cons (c := ',') (by decide))
  rwa [List.append_assoc, List.append_assoc] at hmore

/-! ### Strings -/

/-- Characters of a string that end it at no place. -/
theorem deepest_quoted_cons {c : Char} (hquote : c ≠ '"') (hbackslash : c ≠ '\\') (level : Nat)
    (cs : List Char) : deepest .quoted level (c :: cs) = deepest .quoted level cs := by
  rw [deepest_cons rfl, Place.next, if_neg hquote, if_neg hbackslash]

/-- A backslash takes the next character with it. -/
theorem deepest_quoted_backslash (c : Char) (level : Nat) (cs : List Char) :
    deepest .quoted level ('\\' :: c :: cs) = deepest .quoted level cs := by
  rw [deepest_cons rfl]
  exact deepest_cons rfl cs

theorem HexDigit.ne {c : Char} {n : Nat} (h : HexDigit c n) : c ≠ '"' ∧ c ≠ '\\' := by
  have hall : ∀ n < 16, (Nat.digitChar n ≠ '"' ∧ Nat.digitChar n ≠ '\\') ∧
      (Nat.digitChar n).toUpper ≠ '"' ∧ (Nat.digitChar n).toUpper ≠ '\\' := by
    decide
  obtain ⟨hn, rfl | rfl⟩ := h
  · exact (hall n hn).1
  · exact (hall n hn).2

theorem UnitText.deepest_append {cs : List Char} {n : Nat} (h : UnitText cs n) (level : Nat)
    (rest : List Char) : deepest .quoted level (cs ++ rest) = deepest .quoted level rest := by
  cases h with
  | mk ha hb hc hd =>
    rw [List.cons_append, List.cons_append, List.cons_append, List.singleton_append,
      deepest_quoted_cons ha.ne.1 ha.ne.2, deepest_quoted_cons hb.ne.1 hb.ne.2,
      deepest_quoted_cons hc.ne.1 hc.ne.2, deepest_quoted_cons hd.ne.1 hd.ne.2]

theorem CharText.deepest_append {cs : List Char} {c : Char} (h : CharText cs c) (level : Nat)
    (rest : List Char) : deepest .quoted level (cs ++ rest) = deepest .quoted level rest := by
  cases h with
  | raw _ hquote hbackslash => exact deepest_quoted_cons hquote hbackslash level rest
  | letter => exact deepest_quoted_backslash _ level rest
  | unit hcs =>
    rw [List.cons_append, List.cons_append, deepest_quoted_backslash, hcs.deepest_append]
  | pair hcs _ _ hds =>
    rw [List.cons_append, List.cons_append, deepest_quoted_backslash, List.append_assoc,
      hcs.deepest_append, List.cons_append, List.cons_append, deepest_quoted_backslash,
      hds.deepest_append]

theorem StringText.deepest_append {cs s : List Char} (h : StringText cs s) (level : Nat)
    (rest : List Char) : deepest .quoted level (cs ++ rest) = deepest .quoted level rest := by
  induction h with
  | nil => rfl
  | cons hc _ ih => rw [List.append_assoc, hc.deepest_append, ih]

/-- A string nests nothing, whatever its characters are. -/
theorem StringText.nestsExactly {cs s : List Char} (h : StringText cs s) :
    NestsExactly ('"' :: (cs ++ ['"'])) 0 := by
  intro level rest
  rw [List.cons_append, List.append_assoc, deepest_cons rfl]
  show deepest .quoted level _ = _
  rw [h.deepest_append, List.singleton_append, deepest_cons rfl]
  exact nestsExactly_nil level rest

/-! ### Numerals -/

theorem plain_of_isDigit {c : Char} (h : c.isDigit = true) : Plain c := by
  refine ⟨?_, ?_, ?_, ?_, ?_⟩ <;> rintro rfl <;> exact absurd h (by decide)

theorem Digits.plainText {cs : List Char} (h : Digits cs) : PlainText cs := fun c hc ↦
  plain_of_isDigit (h.2 c hc)

theorem WholeText.plainText {cs : List Char} (h : WholeText cs) : PlainText cs := by
  cases h with
  | zero => decide
  | digits _ hds => exact hds.plainText

theorem FractionText.plainText {cs : List Char} (h : FractionText cs) : PlainText cs := by
  cases h with
  | absent => decide
  | digits hds => exact plainText_cons.2 ⟨by decide, hds.plainText⟩

theorem ExponentText.plainText {cs : List Char} (h : ExponentText cs) : PlainText cs := by
  cases h with
  | absent => decide
  | digits he hsign hds =>
    refine plainText_cons.2 ⟨?_, plainText_append.2 ⟨?_, hds.plainText⟩⟩
    · rcases he with rfl | rfl <;> decide
    · rcases hsign with rfl | rfl | rfl <;> decide

theorem NumeralText.nestsExactly {cs : List Char} (h : NumeralText cs) : NestsExactly cs 0 := by
  cases h with
  | mk hsign hwhole hfraction hexponent =>
    refine PlainText.nestsExactly (plainText_append.2 ⟨?_, plainText_append.2
      ⟨hwhole.plainText, plainText_append.2 ⟨hfraction.plainText, hexponent.plainText⟩⟩⟩)
    rcases hsign with rfl | rfl <;> decide

/-! ### Deeper bounds -/

section Values

variable {numeral : List Char → Number → Prop}

mutual

/-- A text nests at most as deep as any greater bound. -/
theorem ValueText.deepen {depth depth' : Nat} {cs : List Char} {v : Json}
    (hle : depth ≤ depth') : ValueText numeral depth cs v → ValueText numeral depth' cs v
  | .nullWord => .nullWord
  | .trueWord => .trueWord
  | .falseWord => .falseWord
  | .number hn => .number hn
  | .string hs => .string hs
  | .emptyArray hc => by
    obtain ⟨e, rfl⟩ := Nat.exists_eq_add_one.2 (Nat.zero_lt_of_lt hle)
    exact .emptyArray hc
  | .array hi => by
    obtain ⟨e, rfl⟩ := Nat.exists_eq_add_one.2 (Nat.zero_lt_of_lt hle)
    exact .array (hi.deepen (Nat.le_of_succ_le_succ hle))
  | .emptyObject hc => by
    obtain ⟨e, rfl⟩ := Nat.exists_eq_add_one.2 (Nat.zero_lt_of_lt hle)
    exact .emptyObject hc
  | .object hm hs => by
    obtain ⟨e, rfl⟩ := Nat.exists_eq_add_one.2 (Nat.zero_lt_of_lt hle)
    exact .object (hm.deepen (Nat.le_of_succ_le_succ hle)) hs

theorem ItemsText.deepen {depth depth' : Nat} {cs : List Char} {vs : List Json}
    (hle : depth ≤ depth') : ItemsText numeral depth cs vs → ItemsText numeral depth' cs vs
  | .last hb hv ha => .last hb (hv.deepen hle) ha
  | .cons hb hv ha hi => .cons hb (hv.deepen hle) ha (hi.deepen hle)

theorem MemberText.deepen {depth depth' : Nat} {cs : List Char} {m : String × Json}
    (hle : depth ≤ depth') : MemberText numeral depth cs m → MemberText numeral depth' cs m
  | .mk hk hb ha hv => .mk hk hb ha (hv.deepen hle)

theorem MembersText.deepen {depth depth' : Nat} {cs : List Char} {ms : List (String × Json)}
    (hle : depth ≤ depth') : MembersText numeral depth cs ms → MembersText numeral depth' cs ms
  | .last hb hm ha => .last hb (hm.deepen hle) ha
  | .cons hb hm ha hms => .cons hb (hm.deepen hle) ha (hms.deepen hle)

end

theorem DocumentText.deepen {depth depth' : Nat} {cs : List Char} {v : Json}
    (hle : depth ≤ depth') : DocumentText numeral depth cs v → DocumentText numeral depth' cs v
  | .mk hb hv ha => .mk hb (hv.deepen hle) ha

/-! ### The depth of a text -/

mutual

/-- **The text of a value nests exactly as deep as some bound on it.** -/
theorem ValueText.exists_nestsExactly (hnumeral : ∀ cs n, numeral cs n → NumeralText cs)
    {depth : Nat} {cs : List Char} {v : Json} :
    ValueText numeral depth cs v →
      ∃ k ≤ depth, ValueText numeral k cs v ∧ NestsExactly cs k
  | .nullWord => ⟨0, Nat.zero_le _, .nullWord, PlainText.nestsExactly (by decide)⟩
  | .trueWord => ⟨0, Nat.zero_le _, .trueWord, PlainText.nestsExactly (by decide)⟩
  | .falseWord => ⟨0, Nat.zero_le _, .falseWord, PlainText.nestsExactly (by decide)⟩
  | .number hn => ⟨0, Nat.zero_le _, .number hn, (hnumeral _ _ hn).nestsExactly⟩
  | .string hs => ⟨0, Nat.zero_le _, .string hs, hs.nestsExactly⟩
  | .emptyArray hc => ⟨1, Nat.le_add_left 1 _, .emptyArray hc,
      hc.nestsExactly.enclose (.inl rfl) (.inl rfl)⟩
  | .array hi => by
    obtain ⟨k, hk, htext, hnests⟩ := hi.exists_nestsExactly hnumeral
    exact ⟨k + 1, Nat.succ_le_succ hk, .array htext, hnests.enclose (.inl rfl) (.inl rfl)⟩
  | .emptyObject hc => ⟨1, Nat.le_add_left 1 _, .emptyObject hc,
      hc.nestsExactly.enclose (.inr rfl) (.inr rfl)⟩
  | .object hm hs => by
    obtain ⟨k, hk, htext, hnests⟩ := hm.exists_nestsExactly hnumeral
    exact ⟨k + 1, Nat.succ_le_succ hk, .object htext hs, hnests.enclose (.inr rfl) (.inr rfl)⟩

theorem ItemsText.exists_nestsExactly (hnumeral : ∀ cs n, numeral cs n → NumeralText cs)
    {depth : Nat} {cs : List Char} {vs : List Json} :
    ItemsText numeral depth cs vs →
      ∃ k ≤ depth, ItemsText numeral k cs vs ∧ NestsExactly cs k
  | .last hb hv ha => by
    obtain ⟨k, hk, htext, hnests⟩ := hv.exists_nestsExactly hnumeral
    exact ⟨k, hk, .last hb htext ha, hnests.pad hb ha⟩
  | .cons hb hv ha hi => by
    obtain ⟨k, hk, htext, hnests⟩ := hv.exists_nestsExactly hnumeral
    obtain ⟨l, hl, htext', hnests'⟩ := hi.exists_nestsExactly hnumeral
    refine ⟨max k l, Nat.max_le.2 ⟨hk, hl⟩, .cons hb (htext.deepen (Nat.le_max_left k l)) ha
      (htext'.deepen (Nat.le_max_right k l)), ?_⟩
    exact hnests.pad_comma hb ha hnests'

theorem MemberText.exists_nestsExactly (hnumeral : ∀ cs n, numeral cs n → NumeralText cs)
    {depth : Nat} {cs : List Char} {m : String × Json} :
    MemberText numeral depth cs m →
      ∃ k ≤ depth, MemberText numeral k cs m ∧ NestsExactly cs k
  | .mk hk hb ha hv => by
    obtain ⟨k, hle, htext, hnests⟩ := hv.exists_nestsExactly hnumeral
    refine ⟨k, hle, .mk hk hb ha htext, ?_⟩
    have hcolon := (ha.nestsExactly.append hnests).cons (c := ':') (by decide)
    have hmember := hk.nestsExactly.append (hb.nestsExactly.append hcolon)
    rwa [Nat.zero_max, Nat.zero_max, Nat.zero_max, List.cons_append, List.append_assoc,
      List.singleton_append] at hmember

theorem MembersText.exists_nestsExactly (hnumeral : ∀ cs n, numeral cs n → NumeralText cs)
    {depth : Nat} {cs : List Char} {ms : List (String × Json)} : MembersText numeral depth cs ms →
      ∃ k ≤ depth, MembersText numeral k cs ms ∧ NestsExactly cs k
  | .last hb hm ha => by
    obtain ⟨k, hk, htext, hnests⟩ := hm.exists_nestsExactly hnumeral
    exact ⟨k, hk, .last hb htext ha, hnests.pad hb ha⟩
  | .cons hb hm ha hms => by
    obtain ⟨k, hk, htext, hnests⟩ := hm.exists_nestsExactly hnumeral
    obtain ⟨l, hl, htext', hnests'⟩ := hms.exists_nestsExactly hnumeral
    refine ⟨max k l, Nat.max_le.2 ⟨hk, hl⟩, .cons hb (htext.deepen (Nat.le_max_left k l)) ha
      (htext'.deepen (Nat.le_max_right k l)), ?_⟩
    exact hnests.pad_comma hb ha hnests'

end

/-- **A document is bounded by how deep its text nests**, and by nothing less. -/
theorem DocumentText.iff_nesting_le (hnumeral : ∀ cs n, numeral cs n → NumeralText cs)
    {depth depth' : Nat} {text : String} {v : Json}
    (h : DocumentText numeral depth text.toList v) :
    DocumentText numeral depth' text.toList v ↔ nesting text ≤ depth' := by
  have hexact {d : Nat} : DocumentText numeral d text.toList v →
      nesting text ≤ d ∧ DocumentText numeral (nesting text) text.toList v := by
    generalize hcs : text.toList = cs
    rintro ⟨hbefore, hv, hafter⟩
    obtain ⟨k, hk, htext, hnests⟩ := hv.exists_nestsExactly hnumeral
    obtain rfl : nesting text = k := by
      rw [nesting, hcs]
      exact (hnests.pad hbefore hafter).deepest_eq
    exact ⟨hk, .mk hbefore htext hafter⟩
  exact ⟨fun h' ↦ (hexact h').1, fun hle ↦ (hexact h).2.deepen hle⟩

end Values

/-- The same for texts that are read: their numerals have the form of numerals. -/
theorem DocumentText.nesting_le_iff {depth depth' : Nat} {text : String} {v : Json}
    (h : DocumentText NumeralOf depth text.toList v) :
    nesting text ≤ depth' ↔ DocumentText NumeralOf depth' text.toList v :=
  (h.iff_nesting_le numeralText_of_numeralOf).symm

end TaskStatus.Json
