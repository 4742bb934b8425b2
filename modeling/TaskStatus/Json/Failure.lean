/-!
# Why a text is not JSON

A reader that works on the characters left of a text cannot know how far it is into the
text. It reports a `Failure`: the cause, and how many bytes lie behind the place of the
error. `Failure.locate` turns this into a `SyntaxError` with the line and the column of
that place, where lines end at line feeds and columns count bytes.

An error is placed in one of two ways: *at* the characters left when something is missing
or was found wrong after it was read, and *past* their first byte when that byte itself is
what should not be there.
-/

namespace TaskStatus.Json

/-- What is wrong with a text that is not JSON. -/
inductive Cause where
  /-- The text ends inside an array. -/
  | endInArray
  /-- The text ends inside an object. -/
  | endInObject
  /-- The text ends inside a string. -/
  | endInString
  /-- The text ends where a value should follow, or inside one. -/
  | endInValue
  /-- A key is not followed by a colon. -/
  | expectedColon
  /-- An item of an array is followed by neither a comma nor the end of the array. -/
  | expectedCommaOrBracket
  /-- A member of an object is followed by neither a comma nor the end of the object. -/
  | expectedCommaOrBrace
  /-- A word is none of `null`, `true` and `false`. -/
  | expectedWord
  /-- A character begins no value. -/
  | expectedValue
  /-- A backslash begins no escape sequence. -/
  | invalidEscape
  /-- A number is not well formed. -/
  | invalidNumber
  /-- A number is too large for a double. -/
  | numberOutOfRange
  /-- A control character stands in a string. -/
  | controlCharacter
  /-- A key is not a string. -/
  | keyNotString
  /-- One half of a surrogate pair stands alone. -/
  | loneSurrogate
  /-- A comma is followed by the end of the array or object. -/
  | trailingComma
  /-- Something follows the value. -/
  | trailingCharacters
  /-- The first half of a surrogate pair is not followed by an escape sequence. -/
  | missingSurrogate
  /-- Arrays and objects are nested too deeply. -/
  | tooDeep
  deriving DecidableEq, Repr

/-- The words for a cause. -/
def Cause.message : Cause → String
  | .endInArray => "EOF while parsing a list"
  | .endInObject => "EOF while parsing an object"
  | .endInString => "EOF while parsing a string"
  | .endInValue => "EOF while parsing a value"
  | .expectedColon => "expected `:`"
  | .expectedCommaOrBracket => "expected `,` or `]`"
  | .expectedCommaOrBrace => "expected `,` or `\x7d`"
  | .expectedWord => "expected ident"
  | .expectedValue => "expected value"
  | .invalidEscape => "invalid escape"
  | .invalidNumber => "invalid number"
  | .numberOutOfRange => "number out of range"
  | .controlCharacter =>
    "control character (\\u0000-\\u001F) found while parsing a string"
  | .keyNotString => "key must be a string"
  | .loneSurrogate => "lone leading surrogate in hex escape"
  | .trailingComma => "trailing comma"
  | .trailingCharacters => "trailing characters"
  | .missingSurrogate => "unexpected end of hex escape"
  | .tooDeep => "recursion limit exceeded"

/-- A cause, with the number of bytes of the text behind the place of the error. -/
structure Failure where
  /-- What is wrong. -/
  cause : Cause
  /-- How many bytes lie behind the place of the error. -/
  behind : Nat
  deriving DecidableEq, Repr

/-- What a reader gives for the characters left of a text: what it read and the characters
after it. -/
abbrev Reading (α : Type) := Except Failure (α × List Char)

/-- Reads on behind what was read, unless that failed. -/
def Reading.andThen {α β : Type} (r : Reading α) (next : α → List Char → Reading β) : Reading β :=
  match r with
  | .ok (a, left) => next a left
  | .error f => .error f

@[simp] theorem Reading.andThen_ok {α β : Type} (a : α) (left : List Char)
    (next : α → List Char → Reading β) : Reading.andThen (.ok (a, left)) next = next a left := rfl

@[simp] theorem Reading.andThen_error {α β : Type} (f : Failure)
    (next : α → List Char → Reading β) : Reading.andThen (.error f) next = .error f := rfl

/-- Reading on succeeds exactly when both readings do. -/
theorem Reading.andThen_eq_ok_iff {α β : Type} {r : Reading α}
    {next : α → List Char → Reading β} {x : β × List Char} :
    r.andThen next = .ok x ↔ ∃ a left, r = .ok (a, left) ∧ next a left = .ok x := by
  constructor
  · intro h
    cases r with
    | error f => cases h
    | ok p => exact ⟨p.1, p.2, rfl, h⟩
  · rintro ⟨a, left, rfl, h⟩
    exact h

theorem Reading.ok_inj {α : Type} {a b : α} {left rest : List Char}
    (h : (.ok (a, left) : Reading α) = .ok (b, rest)) : a = b ∧ left = rest :=
  Prod.mk.inj (Except.ok.inj h)

/-- What is made of a reading without reading on. -/
theorem Reading.andThen_map_eq_ok_iff {α β : Type} {r : Reading α} {f : α → β} {b : β}
    {rest : List Char} :
    (r.andThen fun a left ↦ .ok (f a, left)) = .ok (b, rest) ↔ ∃ a, r = .ok (a, rest) ∧ f a = b := by
  rw [Reading.andThen_eq_ok_iff]
  constructor
  · rintro ⟨a, left, hr, hok⟩
    obtain ⟨ha, rfl⟩ := Reading.ok_inj hok
    exact ⟨a, hr, ha⟩
  · rintro ⟨a, hr, rfl⟩
    exact ⟨a, rest, hr, rfl⟩

/-- The number of bytes of some characters in UTF-8. -/
def byteLength (cs : List Char) : Nat := cs.foldr (fun c n ↦ c.utf8Size + n) 0

/-- The error at the characters left. -/
def failAt {α : Type} (cause : Cause) (left : List Char) : Except Failure α :=
  .error ⟨cause, byteLength left⟩

/-- The error past the first byte of the characters left, or at the end of the text if
none is left. -/
def failPast {α : Type} (cause : Cause) (left : List Char) : Except Failure α :=
  .error ⟨cause, byteLength left - 1⟩

/-- The place of an error in a text and its cause. -/
structure SyntaxError where
  /-- What is wrong. -/
  cause : Cause
  /-- The number of the line, from one. -/
  line : Nat
  /-- The number of bytes before the place in its line. -/
  column : Nat
  deriving DecidableEq, Repr

/-- The line and the column behind some bytes of a text. -/
def position (before : List UInt8) : Nat × Nat :=
  (before.count 10 + 1, (before.reverse.takeWhile (· != 10)).length)

/-- The place of a failure in the text that was read. -/
def Failure.locate (text : String) (f : Failure) : SyntaxError :=
  let bytes := text.toByteArray.data.toList
  let (line, column) := position (bytes.take (bytes.length - f.behind))
  ⟨f.cause, line, column⟩

/-- The words for a syntax error. -/
def SyntaxError.message (e : SyntaxError) : String :=
  s!"{e.cause.message} at line {e.line} column {e.column}"

end TaskStatus.Json
