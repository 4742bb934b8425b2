import TaskStatus.Json.Failure
import TaskStatus.Json.Number

/-!
# Reading numbers

A numeral is an integer part without a leading zero, and may have a fraction and an
exponent. Without these two it is an integer if it fits into 64 bits, with or without sign.

Every other numeral is a double. Its digits are gathered into a *significand* below
`2^64`: the first digit that would take it over that bound and the digits after it in the
same part of the numeral are dropped, where those of the integer part raise the power of
ten. The significand is converted to a double and multiplied with or divided by a power of
ten that is itself a double, so the result need not be the double nearest to the numeral.
-/

namespace TaskStatus.Json

/-- The value of a decimal digit. -/
def digitValue (c : Char) : Nat := c.toNat - '0'.toNat

/-- Appends digits to a number as long as the result does not exceed a bound: the number
and how many of the digits it took. -/
def absorb (bound : Nat) : Nat → List Char → Nat × Nat
  | n, [] => (n, 0)
  | n, c :: cs =>
    if n * 10 + digitValue c ≤ bound then
      let (m, taken) := absorb bound (n * 10 + digitValue c) cs
      (m, taken + 1)
    else (n, 0)

/-- The greatest significand. -/
def maxSignificand : Nat := Nat.pow 2 64 - 1

/-- The greatest exponent that is read to its end. -/
def maxExponent : Nat := Nat.pow 2 31 - 1

/-- The greatest power of ten that is multiplied with at once. -/
def maxScale : Nat := 308

/-- A power of ten as a double. -/
def powerOfTen (n : Nat) : Float := Float.ofScientific 1 false n

/-- A double times a power of ten, unless that is too large. -/
def scaleUp? (f : Float) (n : Nat) : Option Float :=
  if n ≤ maxScale then
    let g := f * powerOfTen n
    if g.isInf then none else some g
  else if f == 0 then some f
  else none

/-- A double divided by a power of ten, in steps that are doubles. -/
def scaleDown (f : Float) (n : Nat) : Float :=
  if n ≤ maxScale then f / powerOfTen n
  else if f == 0 then f
  else scaleDown (f / powerOfTen maxScale) (n - maxScale)
termination_by n
decreasing_by simp only [maxScale] at *; omega

/-- A double with a sign. -/
def signed (negative : Bool) (f : Float) : Number := .double (if negative then -f else f)

/-- The number `significand · 10^exponent` as a double. -/
def scaled (negative : Bool) (significand : Nat) (exponent : Int) (left : List Char) :
    Reading Number :=
  let f := Float.ofNat significand
  if 0 ≤ exponent then
    match scaleUp? f exponent.toNat with
    | some g => .ok (signed negative g, left)
    | none => failAt .numberOutOfRange left
  else .ok (signed negative (scaleDown f (-exponent).toNat), left)

/-- Reads the digits of an exponent and scales the significand. An exponent over
`maxExponent` is refused at the digit that takes it over if it is positive, and makes any
significand vanish if it is negative. -/
def readExponentDigits (negative : Bool) (significand : Nat) (exponent : Int) (down : Bool) :
    List Char → Reading Number
  | [] => failAt .endInValue []
  | c :: cs =>
    if ¬ c.isDigit then failPast .invalidNumber (c :: cs)
    else
      let digits := (c :: cs).takeWhile Char.isDigit
      let left := (c :: cs).dropWhile Char.isDigit
      let (e, taken) := absorb maxExponent 0 digits
      if taken = digits.length then
        scaled negative significand (if down then exponent - e else exponent + e) left
      else if significand ≠ 0 ∧ ¬ down then
        failAt .numberOutOfRange (digits.drop (taken + 1) ++ left)
      else .ok (signed negative 0, left)

/-- Reads an exponent behind its letter. -/
def readExponent (negative : Bool) (significand : Nat) (exponent : Int) :
    List Char → Reading Number
  | '-' :: cs => readExponentDigits negative significand exponent true cs
  | '+' :: cs => readExponentDigits negative significand exponent false cs
  | cs => readExponentDigits negative significand exponent false cs

/-- Reads what may follow a fraction, or an integer part that is too long for 64 bits. -/
def readScale (negative : Bool) (significand : Nat) (exponent : Int) (left : List Char) :
    Reading Number :=
  match left with
  | 'e' :: cs => readExponent negative significand exponent cs
  | 'E' :: cs => readExponent negative significand exponent cs
  | cs => scaled negative significand exponent cs

/-- Reads a fraction behind its point. -/
def readFraction (negative : Bool) (significand : Nat) (exponent : Int) (cs : List Char) :
    Reading Number :=
  let digits := cs.takeWhile Char.isDigit
  let left := cs.dropWhile Char.isDigit
  match digits, left with
  | [], [] => failAt .endInValue []
  | [], _ => failPast .invalidNumber left
  | _, _ =>
    let (s, taken) := absorb maxSignificand significand digits
    readScale negative s (exponent - taken) left

/-- A number without fraction and exponent. Zero with a sign and a negative number below
`-2^63` are doubles. -/
def integral (negative : Bool) (n : Nat) : Number :=
  if ¬ negative then .integer n
  else if 0 < n ∧ n ≤ Nat.pow 2 63 then .integer (-n)
  else signed true (Float.ofNat n)

/-- Reads what follows an integer part whose digits fit into 64 bits. -/
def readTail (negative : Bool) (significand : Nat) (left : List Char) : Reading Number :=
  match left with
  | '.' :: cs => readFraction negative significand 0 cs
  | 'e' :: cs => readExponent negative significand 0 cs
  | 'E' :: cs => readExponent negative significand 0 cs
  | cs => .ok (integral negative significand, cs)

/-- Reads a number behind its sign. -/
def readUnsigned (negative : Bool) : List Char → Reading Number
  | [] => failAt .endInValue []
  | '0' :: cs =>
    match cs with
    | [] => readTail negative 0 []
    | c :: cs =>
      if c.isDigit then failPast .invalidNumber (c :: cs) else readTail negative 0 (c :: cs)
  | c :: cs =>
    if ¬ c.isDigit then failPast .invalidNumber (c :: cs)
    else
      let digits := (c :: cs).takeWhile Char.isDigit
      let left := (c :: cs).dropWhile Char.isDigit
      let (s, taken) := absorb maxSignificand 0 digits
      if taken = digits.length then readTail negative s left
      else
        -- the dropped digits are powers of ten
        let dropped := digits.length - taken
        match left with
        | '.' :: cs => readFraction negative s dropped cs
        | cs => readScale negative s dropped cs

/-- Reads a number, at its sign or its first digit. -/
def readNumber : List Char → Reading Number
  | '-' :: cs => readUnsigned true cs
  | cs => readUnsigned false cs

end TaskStatus.Json
