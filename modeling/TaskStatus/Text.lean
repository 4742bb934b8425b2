/-!
# Bytes and the text they spell

File names, paths, environment values and the output of other programs are strings of
bytes that need not be text. A byte string is read as UTF-8 in two ways:

* `Bytes.text?` is strict: it gives the text that the bytes spell, or nothing;
* `Bytes.lossy` is for display: each longest run of bytes that begins a character and
  cannot be completed is shown as one replacement character.

The strict reading is the standard library's. The lossy one follows the table of
well-formed byte sequences: `Utf8.Lead` says for a first byte how many bytes must follow
and which range the first of them has; the others lie in `80..BF`.

A text is trimmed of the characters with the Unicode property `White_Space` at both ends.
-/

namespace TaskStatus

/-- A string of bytes. -/
abbrev Bytes := List UInt8

namespace Utf8

/-- What the first byte of a sequence demands of the bytes after it. -/
structure Lead where
  /-- How many bytes follow. -/
  tail : Nat
  /-- The least value of the byte that follows. -/
  low : UInt8
  /-- The greatest value of the byte that follows. -/
  high : UInt8
  /-- The value bits that the first byte carries. -/
  bits : Nat

/-- The demand of a first byte; none for a byte that begins no character. -/
def lead? (b : UInt8) : Option Lead :=
  if b < 0x80 then some ⟨0, 0x80, 0xBF, b.toNat⟩
  else if b < 0xC2 then none
  else if b < 0xE0 then some ⟨1, 0x80, 0xBF, b.toNat - 0xC0⟩
  else if b = 0xE0 then some ⟨2, 0xA0, 0xBF, 0⟩
  else if b = 0xED then some ⟨2, 0x80, 0x9F, 0xD⟩
  else if b < 0xF0 then some ⟨2, 0x80, 0xBF, b.toNat - 0xE0⟩
  else if b = 0xF0 then some ⟨3, 0x90, 0xBF, 0⟩
  else if b < 0xF4 then some ⟨3, 0x80, 0xBF, b.toNat - 0xF0⟩
  else if b = 0xF4 then some ⟨3, 0x80, 0x8F, 4⟩
  else none

/-- The bytes that continue a sequence: at most `n`, the first in `low..high` and the
others in `80..BF`. -/
def continuation (low high : UInt8) : Nat → Bytes → Bytes
  | n + 1, b :: bs =>
    if low ≤ b ∧ b ≤ high then b :: continuation 0x80 0xBF n bs else []
  | _, _ => []

/-- The replacement character. -/
def replacement : Char := '\uFFFD'

/-- The character shown for a first byte and the bytes after it, with the number of
those bytes that it stands for. -/
def head (b : UInt8) (bs : Bytes) : Char × Nat :=
  match lead? b with
  | none => (replacement, 0)
  | some l =>
    let more := continuation l.low l.high l.tail bs
    let value := more.foldl (fun v c ↦ v * 64 + c.toNat % 64) l.bits
    (if more.length = l.tail then Char.ofNat value else replacement, more.length)

end Utf8

namespace Bytes

/-- The bytes of a text in UTF-8. -/
def ofText (s : String) : Bytes := s.toByteArray.data.toList

/-- The text that the bytes spell in UTF-8, if they spell one. -/
def text? (b : Bytes) : Option String := String.fromUTF8? ⟨b.toArray⟩

/-- A text is what its bytes spell. -/
@[simp] theorem text?_ofText (s : String) : (ofText s).text? = some s := by
  rw [ofText, text?, Array.toArray_toList]
  exact dif_pos s.isValidUTF8

/-- The characters shown for a byte string. -/
def lossyChars : Bytes → List Char
  | [] => []
  | b :: bs =>
    let (c, n) := Utf8.head b bs
    c :: lossyChars (bs.drop n)
termination_by b => b.length
decreasing_by simp only [List.length_drop, List.length_cons]; omega

/-- The text shown for a byte string that need not be UTF-8. -/
def lossy (b : Bytes) : String := String.ofList b.lossyChars

end Bytes

/-! ### Blank characters -/

/-- Whether a character has the Unicode property `White_Space`. -/
def isBlank (c : Char) : Bool :=
  let n := c.toNat
  (0x9 ≤ n && n ≤ 0xD) || n == 0x20 || n == 0x85 || n == 0xA0 || n == 0x1680
    || (0x2000 ≤ n && n ≤ 0x200A) || n == 0x2028 || n == 0x2029 || n == 0x202F
    || n == 0x205F || n == 0x3000

/-- A list of characters without the blank ones at its two ends. -/
def trimChars (cs : List Char) : List Char :=
  ((cs.dropWhile isBlank).reverse.dropWhile isBlank).reverse

/-- A text without the blank characters at its two ends. -/
def trim (s : String) : String := String.ofList (trimChars s.toList)

end TaskStatus
