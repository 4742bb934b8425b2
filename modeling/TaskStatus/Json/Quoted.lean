import TaskStatus.Json.Failure

/-!
# Reading strings

Behind its opening quotation mark a string is a run of characters up to the closing one.
A character is written as itself, unless it is a control character, or as an escape
sequence. An escape sequence of four hexadecimal digits stands for a UTF-16 unit: two of
them that are the halves of a surrogate pair stand for one character, and a half of a pair
that stands alone is refused.
-/

namespace TaskStatus.Json

/-- The value of a hexadecimal digit of either case. -/
def hexValue? (c : Char) : Option Nat :=
  if '0' ≤ c ∧ c ≤ '9' then some (c.toNat - '0'.toNat)
  else if 'a' ≤ c ∧ c ≤ 'f' then some (c.toNat - 'a'.toNat + 10)
  else if 'A' ≤ c ∧ c ≤ 'F' then some (c.toNat - 'A'.toNat + 10)
  else none

/-- The value of four hexadecimal digits. -/
def unitValue? (a b c d : Char) : Option Nat := do
  let a ← hexValue? a
  let b ← hexValue? b
  let c ← hexValue? c
  let d ← hexValue? d
  return ((a * 16 + b) * 16 + c) * 16 + d

/-- Reads four hexadecimal digits. Four bytes are taken before they are looked at, so a
text that is shorter ends inside the string. -/
def readUnit (cs : List Char) : Reading Nat :=
  if byteLength (cs.take 4) < 4 then failAt .endInString []
  else
    match cs with
    | a :: b :: c :: d :: left =>
      match unitValue? a b c d with
      | some n => .ok (n, left)
      | none => .error ⟨.invalidEscape, byteLength cs - 4⟩
    | _ => .error ⟨.invalidEscape, byteLength cs - 4⟩

/-- Whether a UTF-16 unit is the first half of a surrogate pair. -/
def isHighSurrogate (n : Nat) : Bool := 0xD800 ≤ n && n ≤ 0xDBFF

/-- Whether a UTF-16 unit is the second half of a surrogate pair. -/
def isLowSurrogate (n : Nat) : Bool := 0xDC00 ≤ n && n ≤ 0xDFFF

/-- The character of a surrogate pair. -/
def pairChar (high low : Nat) : Char :=
  Char.ofNat (0x10000 + (high - 0xD800) * 0x400 + (low - 0xDC00))

/-- Reads the second half of a surrogate pair. -/
def readLowSurrogate (high : Nat) : List Char → Reading Char
  | [] => failAt .endInString []
  | '\\' :: [] => failAt .endInString []
  | '\\' :: 'u' :: cs => (readUnit cs).andThen fun low left ↦
    if isLowSurrogate low then .ok (pairChar high low, left) else failAt .loneSurrogate left
  | '\\' :: cs => failPast .missingSurrogate cs
  | cs => failPast .missingSurrogate cs

/-- Reads the hexadecimal digits of an escape sequence, and its second half if they are the
first half of a surrogate pair. -/
def readUnicodeEscape (cs : List Char) : Reading Char := (readUnit cs).andThen fun n left ↦
  if isLowSurrogate n then failAt .loneSurrogate left
  else if isHighSurrogate n then readLowSurrogate n left
  else .ok (Char.ofNat n, left)

/-- The character of an escape sequence of one letter. -/
def letterEscape? : Char → Option Char
  | '"' => some '"'
  | '\\' => some '\\'
  | '/' => some '/'
  | 'b' => some '\x08'
  | 'f' => some '\x0c'
  | 'n' => some '\n'
  | 'r' => some '\r'
  | 't' => some '\t'
  | _ => none

/-- Reads an escape sequence behind its backslash. -/
def readEscape : List Char → Reading Char
  | [] => failAt .endInString []
  | 'u' :: cs => readUnicodeEscape cs
  | c :: cs =>
    match letterEscape? c with
    | some e => .ok (e, cs)
    | none => failPast .invalidEscape (c :: cs)

/-- Reads one character of a string. -/
def readChar : List Char → Reading Char
  | [] => failAt .endInString []
  | '\\' :: cs => readEscape cs
  | c :: cs => if c < ' ' then failPast .controlCharacter (c :: cs) else .ok (c, cs)

/-- Reads the characters up to the closing quotation mark, of which there are at most as
many as the bound says. -/
def readChars : Nat → List Char → Reading (List Char)
  | _, '"' :: left => .ok ([], left)
  | 0, _ => failAt .endInString []
  | n + 1, cs =>
    (readChar cs).andThen fun c left ↦
    (readChars n left).andThen fun rest left ↦
    .ok (c :: rest, left)

/-- Reads a string behind its opening quotation mark, with a bound on its length. -/
def readString (bound : Nat) (cs : List Char) : Reading String :=
  (readChars bound cs).andThen fun s left ↦ .ok (String.ofList s, left)

end TaskStatus.Json
