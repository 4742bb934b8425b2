/-!
# The shortest decimal of a binary number

A binary number is `m · 2^q`. The reals that round to it form an interval around it, whose
ends belong to it exactly when `m` is even. Among the decimals `d · 10^k` in that interval
the *shortest* is one with the fewest digits, and of several with equally few the one
nearest to the number; of two equally near ones the one with an even last digit.

All arithmetic is exact, on natural numbers: the number, the ends of its interval and the
points of a decimal grid are counted in one common unit, and the grids `10^k` are tried
from the coarsest to the finest. A point of a grid lies in the interval only if one of the
number's two neighbours on that grid does, so two points a grid are enough.
-/

namespace TaskStatus

/-- A positive binary number `mantissa · 2^exponent`. -/
structure Binary where
  /-- The integer that is scaled. -/
  mantissa : Nat
  /-- The power of two that scales it. -/
  exponent : Int
  /-- The number's lower neighbour is only half as far away as its upper one. -/
  narrowBelow : Bool
  deriving DecidableEq, Repr

/-- A decimal number `digits · 10^exponent`. -/
structure Decimal where
  /-- The integer that is scaled. -/
  digits : Nat
  /-- The power of ten that scales it. -/
  exponent : Int
  deriving DecidableEq, Repr

namespace Decimal

/-- Drops the zeros at the end of the digits. -/
def normalize (d : Decimal) : Decimal :=
  if h : d.digits % 10 = 0 ∧ d.digits ≠ 0 then
    normalize ⟨d.digits / 10, d.exponent + 1⟩
  else d
termination_by d.digits
decreasing_by omega

/-- The digits as text. -/
def digitChars (d : Decimal) : List Char := Nat.toDigits 10 d.digits

end Decimal

namespace Binary

/-- The power of ten of the number's first decimal digit: it is at least `10^magnitude`
and less than `10^(magnitude + 1)`. -/
def magnitude (b : Binary) : Int :=
  match b.exponent with
  | .ofNat q => (Nat.toDigits 10 (b.mantissa * Nat.pow 2 q)).length - 1
  | .negSucc p =>
    -- `2^(-n)` is `5^n` units of `10^(-n)`
    (Nat.toDigits 10 (b.mantissa * Nat.pow 5 (p + 1))).length - 1 - (p + 1 : Nat)

/-- The unit in which the number is compared with the grid `10^k`, as the number of units
in a quarter of the number's last place and in a step of the grid. -/
def units (b : Binary) (k : Int) : Nat × Nat :=
  (Nat.pow 2 (b.exponent - 2).toNat * Nat.pow 10 (-k).toNat,
    Nat.pow 2 (2 - b.exponent).toNat * Nat.pow 10 k.toNat)

/-- Whether `point` units lie in the interval of the reals that round to the number, where
a quarter of its last place is `quarter` units. -/
def rounds (b : Binary) (quarter point : Nat) : Bool :=
  let low := (4 * b.mantissa - if b.narrowBelow then 1 else 2) * quarter
  let high := (4 * b.mantissa + 2) * quarter
  if b.mantissa % 2 = 0 then low ≤ point && point ≤ high else low < point && point < high

/-- The point of the grid `10^k` nearest to the number among those that round to it. -/
def onGrid? (b : Binary) (k : Int) : Option Decimal :=
  let (quarter, step) := b.units k
  let value := 4 * b.mantissa * quarter
  let below := value / step
  let above := below + 1
  let nearest :=
    match b.rounds quarter (below * step), b.rounds quarter (above * step) with
    | false, false => none
    | true, false => some below
    | false, true => some above
    | true, true =>
      match compare (value - below * step) (above * step - value) with
      | .lt => some below
      | .gt => some above
      | .eq => some (if below % 2 = 0 then below else above)
  nearest.map (⟨·, k⟩)

/-- The shortest decimal that rounds to the number. Seventeen digits always suffice for a
53-bit mantissa. -/
def shortest (b : Binary) : Decimal :=
  ((List.range 17).findSome? fun (n : Nat) ↦ b.onGrid? (b.magnitude - n)).getD ⟨0, 0⟩ |>.normalize

/-- The magnitude of a finite double-precision number other than zero. -/
def ofFloat (f : Float) : Binary :=
  let bits := f.toBits.toNat
  let fraction : Nat := bits % Nat.pow 2 52
  let exponent : Nat := bits / Nat.pow 2 52 % Nat.pow 2 11
  if exponent = 0 then ⟨fraction, -1074, false⟩
  else ⟨Nat.pow 2 52 + fraction, exponent - 1075, fraction = 0 ∧ 1 < exponent⟩

end Binary

end TaskStatus
