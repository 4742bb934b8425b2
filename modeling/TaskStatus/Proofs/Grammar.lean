import TaskStatus.Json.Value

/-!
# The grammar of JSON

What a JSON text is, written down without a reader: white space, the characters of a string with
their escape sequences, numerals, and from these the texts of values (`ValueText`). A text belongs
to the value that it writes, so the grammar says in one place which texts are well formed and what
they mean.

Three shape decisions:

* arrays and objects are counted: `ValueText numeral depth` holds of texts that nest them at most
  `depth` deep, and every value that is written counts, also one that a later member replaces;
* an object settles its members (`Settles`): they are kept in the order of their keys, and of the
  members that are written with one key the last counts. Nothing is said on how they are sorted;
* what a numeral stands for is a parameter. With the form of numerals alone (`NumeralText`) this
  is the grammar of well-formed texts (`WellFormed`), where the numbers of the value are left
  open; other parameters give the texts of values with known numbers.
-/

namespace TaskStatus.Json

/-! ### White space -/

/-- White space between tokens: nothing but blanks, tabs, line feeds and carriage returns. -/
def Insignificant (cs : List Char) : Prop := ∀ c ∈ cs, c = ' ' ∨ c = '\t' ∨ c = '\n' ∨ c = '\r'

@[simp] theorem insignificant_nil : Insignificant [] := fun _ h ↦ absurd h List.not_mem_nil

@[simp] theorem insignificant_cons {c : Char} {cs : List Char} :
    Insignificant (c :: cs) ↔ (c = ' ' ∨ c = '\t' ∨ c = '\n' ∨ c = '\r') ∧ Insignificant cs :=
  List.forall_mem_cons

theorem insignificant_append {cs ds : List Char} :
    Insignificant (cs ++ ds) ↔ Insignificant cs ∧ Insignificant ds :=
  List.forall_mem_append

/-! ### Strings -/

/-- A hexadecimal digit, of either case, and its value. -/
def HexDigit (c : Char) (n : Nat) : Prop :=
  n < 16 ∧ (c = Nat.digitChar n ∨ c = (Nat.digitChar n).toUpper)

instance (c : Char) (n : Nat) : Decidable (HexDigit c n) := by unfold HexDigit; infer_instance

/-- Four hexadecimal digits and the number that they write. -/
inductive UnitText : List Char → Nat → Prop where
  | mk {a b c d : Char} {i j k l : Nat} :
      HexDigit a i → HexDigit b j → HexDigit c k → HexDigit d l →
      UnitText [a, b, c, d] (i * 0x1000 + j * 0x100 + k * 0x10 + l)

/-- The letters that stand for a character behind a backslash. -/
def letterEscapes : List (Char × Char) :=
  [('"', '"'), ('\\', '\\'), ('/', '/'), ('b', '\x08'), ('f', '\x0c'), ('n', '\n'), ('r', '\r'),
    ('t', '\t')]

/-- What may stand for a character between quotation marks: the character itself, unless it is a
control character, a quotation mark or a backslash; an escape by a letter; its code as four
hexadecimal digits; or the two halves of its surrogate pair. -/
inductive CharText : List Char → Char → Prop where
  | raw {c : Char} : ' ' ≤ c → c ≠ '"' → c ≠ '\\' → CharText [c] c
  | letter {l c : Char} : (l, c) ∈ letterEscapes → CharText ['\\', l] c
  | unit {cs : List Char} {c : Char} : UnitText cs c.toNat → CharText ('\\' :: 'u' :: cs) c
  | pair {cs ds : List Char} {high low : Nat} {c : Char} :
      UnitText cs high → 0xD800 ≤ high → high < 0xDC00 →
      UnitText ds low → 0xDC00 ≤ low → low < 0xE000 →
      c.toNat = 0x10000 + (high - 0xD800) * 0x400 + (low - 0xDC00) →
      CharText ('\\' :: 'u' :: (cs ++ '\\' :: 'u' :: ds)) c

/-- What may stand for the characters of a string between its quotation marks. -/
inductive StringText : List Char → List Char → Prop where
  | nil : StringText [] []
  | cons {cs ds s : List Char} {c : Char} :
      CharText cs c → StringText ds s → StringText (cs ++ ds) (c :: s)

/-! ### Numerals -/

/-- A run of digits that is not empty. -/
def Digits (cs : List Char) : Prop := cs ≠ [] ∧ ∀ c ∈ cs, c.isDigit = true

/-- The integer part of a numeral: a zero, or digits that do not begin with one. -/
inductive WholeText : List Char → Prop where
  | zero : WholeText ['0']
  | digits {c : Char} {cs : List Char} : c ≠ '0' → Digits (c :: cs) → WholeText (c :: cs)

/-- The fraction of a numeral, which it need not have. -/
inductive FractionText : List Char → Prop where
  | absent : FractionText []
  | digits {cs : List Char} : Digits cs → FractionText ('.' :: cs)

/-- The exponent of a numeral, which it need not have. -/
inductive ExponentText : List Char → Prop where
  | absent : ExponentText []
  | digits {e : Char} {sign cs : List Char} :
      e = 'e' ∨ e = 'E' → sign = [] ∨ sign = ['+'] ∨ sign = ['-'] → Digits cs →
      ExponentText (e :: (sign ++ cs))

/-- A numeral. -/
inductive NumeralText : List Char → Prop where
  | mk {sign whole fraction exponent : List Char} :
      sign = [] ∨ sign = ['-'] → WholeText whole → FractionText fraction → ExponentText exponent →
      NumeralText (sign ++ (whole ++ (fraction ++ exponent)))

/-- The integers that fit into 64 bits, with or without sign: `-2^63 ≤ k < 2^64`. -/
def FitsWord (k : Int) : Prop := -0x8000000000000000 ≤ k ∧ k < 0x10000000000000000

/-- The decimal digits of an integer that fits into 64 bits, and the number that they write. -/
def IntegerText (cs : List Char) (n : Number) : Prop :=
  ∃ k, FitsWord k ∧ n = .integer k ∧ cs = integerChars k

/-! ### Values -/

/-- **Which members an object has** when some are written: they stand in the order of their keys,
one for each key, and have the value that was written last for it. -/
structure Settles (written members : List (String × Json)) : Prop where
  /-- The keys are in strictly increasing order. -/
  sorted : members.Pairwise fun m n ↦ m.1 < n.1
  /-- The value of a key is the one written last. -/
  find?_eq : ∀ key, find? key members = find? key written.reverse

section Values

variable (numeral : List Char → Number → Prop)

mutual

/-- **The texts of a value**, in which arrays and objects nest at most so deep. -/
inductive ValueText : Nat → List Char → Json → Prop where
  | nullWord {depth : Nat} : ValueText depth ['n', 'u', 'l', 'l'] .null
  | trueWord {depth : Nat} : ValueText depth ['t', 'r', 'u', 'e'] (.bool true)
  | falseWord {depth : Nat} : ValueText depth ['f', 'a', 'l', 's', 'e'] (.bool false)
  | number {depth : Nat} {cs : List Char} {n : Number} :
      numeral cs n → ValueText depth cs (.number n)
  | string {depth : Nat} {cs s : List Char} :
      StringText cs s → ValueText depth ('"' :: (cs ++ ['"'])) (.string (String.ofList s))
  | emptyArray {depth : Nat} {cs : List Char} :
      Insignificant cs → ValueText (depth + 1) ('[' :: (cs ++ [']'])) (.array [])
  | array {depth : Nat} {cs : List Char} {vs : List Json} :
      ItemsText depth cs vs → ValueText (depth + 1) ('[' :: (cs ++ [']'])) (.array vs)
  | emptyObject {depth : Nat} {cs : List Char} :
      Insignificant cs → ValueText (depth + 1) ('{' :: (cs ++ ['}'])) (.object [])
  | object {depth : Nat} {cs : List Char} {written members : List (String × Json)} :
      MembersText depth cs written → Settles written members →
      ValueText (depth + 1) ('{' :: (cs ++ ['}'])) (.object members)

/-- The texts of items: values with white space around them and commas between them. -/
inductive ItemsText : Nat → List Char → List Json → Prop where
  | last {depth : Nat} {before cs after : List Char} {v : Json} :
      Insignificant before → ValueText depth cs v → Insignificant after →
      ItemsText depth (before ++ (cs ++ after)) [v]
  | cons {depth : Nat} {before cs after ds : List Char} {v : Json} {vs : List Json} :
      Insignificant before → ValueText depth cs v → Insignificant after →
      ItemsText depth ds vs → ItemsText depth (before ++ (cs ++ (after ++ ',' :: ds))) (v :: vs)

/-- The texts of a member: a key, a colon and a value, with white space between them. -/
inductive MemberText : Nat → List Char → String × Json → Prop where
  | mk {depth : Nat} {key k before after cs : List Char} {v : Json} :
      StringText key k → Insignificant before → Insignificant after → ValueText depth cs v →
      MemberText depth ('"' :: (key ++ '"' :: (before ++ ':' :: (after ++ cs))))
        (String.ofList k, v)

/-- The texts of members: members with white space around them and commas between them. -/
inductive MembersText : Nat → List Char → List (String × Json) → Prop where
  | last {depth : Nat} {before cs after : List Char} {m : String × Json} :
      Insignificant before → MemberText depth cs m → Insignificant after →
      MembersText depth (before ++ (cs ++ after)) [m]
  | cons {depth : Nat} {before cs after ds : List Char} {m : String × Json}
      {ms : List (String × Json)} :
      Insignificant before → MemberText depth cs m → Insignificant after →
      MembersText depth ds ms → MembersText depth (before ++ (cs ++ (after ++ ',' :: ds))) (m :: ms)

end

/-- **A JSON text**: one value, and nothing but white space around it. -/
inductive DocumentText (depth : Nat) : List Char → Json → Prop where
  | mk {before cs after : List Char} {v : Json} :
      Insignificant before → ValueText numeral depth cs v → Insignificant after →
      DocumentText depth (before ++ (cs ++ after)) v

end Values

/-- **Well-formed texts**, with arrays and objects nested at most so deep: texts of some value,
where numerals have the form of numerals and may stand for any number. -/
def WellFormed (depth : Nat) (cs : List Char) : Prop :=
  ∃ v, DocumentText (fun ds _ ↦ NumeralText ds) depth cs v

/-! ### Other numerals -/

section Mono

variable {numeral numeral' : List Char → Number → Prop}

mutual

/-- A text keeps its value when more numerals are admitted. -/
theorem ValueText.mono (h : ∀ cs n, numeral cs n → numeral' cs n) {depth : Nat} {cs : List Char}
    {v : Json} : ValueText numeral depth cs v → ValueText numeral' depth cs v
  | .nullWord => .nullWord
  | .trueWord => .trueWord
  | .falseWord => .falseWord
  | .number hn => .number (h _ _ hn)
  | .string hs => .string hs
  | .emptyArray hc => .emptyArray hc
  | .array hi => .array (hi.mono h)
  | .emptyObject hc => .emptyObject hc
  | .object hm hs => .object (hm.mono h) hs

theorem ItemsText.mono (h : ∀ cs n, numeral cs n → numeral' cs n) {depth : Nat} {cs : List Char}
    {vs : List Json} : ItemsText numeral depth cs vs → ItemsText numeral' depth cs vs
  | .last hb hv ha => .last hb (hv.mono h) ha
  | .cons hb hv ha hi => .cons hb (hv.mono h) ha (hi.mono h)

theorem MemberText.mono (h : ∀ cs n, numeral cs n → numeral' cs n) {depth : Nat} {cs : List Char}
    {m : String × Json} : MemberText numeral depth cs m → MemberText numeral' depth cs m
  | .mk hk hb ha hv => .mk hk hb ha (hv.mono h)

theorem MembersText.mono (h : ∀ cs n, numeral cs n → numeral' cs n) {depth : Nat} {cs : List Char}
    {ms : List (String × Json)} :
    MembersText numeral depth cs ms → MembersText numeral' depth cs ms
  | .last hb hm ha => .last hb (hm.mono h) ha
  | .cons hb hm ha hms => .cons hb (hm.mono h) ha (hms.mono h)

end

theorem DocumentText.mono (h : ∀ cs n, numeral cs n → numeral' cs n) {depth : Nat} {cs : List Char}
    {v : Json} : DocumentText numeral depth cs v → DocumentText numeral' depth cs v
  | .mk hb hv ha => .mk hb (hv.mono h) ha

end Mono

end TaskStatus.Json
