import TaskStatus.Decimal.Shortest

/-!
# Numbers of a JSON document

A number is an integer as long as it is written as one and fits into 64 bits, and a
double-precision number otherwise. An integer is printed by its digits. A double is
printed by the shortest digits that read back, with a point when it lies in
`[10^-5, 10^16)` or is zero, and with an exponent otherwise; a whole one keeps `.0`.
-/

namespace TaskStatus.Json

/-- A number. -/
inductive Number where
  /-- An integer, in `-2^63 ≤ n < 2^64` when it was read from a text. -/
  | integer (n : Int)
  /-- A double-precision number. -/
  | double (f : Float)
  deriving Repr

/-- The decimal digits of an integer, after a minus sign if it is negative. -/
def integerChars (n : Int) : List Char :=
  if n < 0 then '-' :: Nat.toDigits 10 n.natAbs else Nat.toDigits 10 n.natAbs

/-- The least power of ten, as that of the first digit, written without an exponent. -/
def leastPositional : Int := -5

/-- The greatest power of ten, as that of the first digit, written without an exponent. -/
def greatestPositional : Int := 15

/-- A positive decimal: with a point if its first digit is of a power of ten between
`leastPositional` and `greatestPositional`, and with an exponent otherwise. -/
def decimalChars (d : Decimal) : List Char :=
  let digits := d.digitChars
  -- the power of ten of the first digit
  let magnitude := d.exponent + digits.length - 1
  if magnitude < leastPositional ∨ greatestPositional < magnitude then
    let mantissa := match digits with
      | c :: cs@(_ :: _) => c :: '.' :: cs
      | cs => cs
    mantissa ++ 'e' :: (if magnitude < 0 then '-' else '+') :: Nat.toDigits 10 magnitude.natAbs
  else if 0 ≤ d.exponent then
    digits ++ List.replicate d.exponent.toNat '0' ++ ['.', '0']
  else if 0 ≤ magnitude then
    digits.take (magnitude + 1).toNat ++ '.' :: digits.drop (magnitude + 1).toNat
  else
    '0' :: '.' :: List.replicate (-magnitude - 1).toNat '0' ++ digits

/-- A double-precision number. -/
def doubleChars (f : Float) : List Char :=
  let sign := if f.toBits.toNat < Nat.pow 2 63 then [] else ['-']
  sign ++ if f == 0 then ['0', '.', '0'] else decimalChars (Binary.ofFloat f).shortest

/-- The characters that a number is printed as. -/
def Number.chars : Number → List Char
  | .integer n => integerChars n
  | .double f => doubleChars f

end TaskStatus.Json
