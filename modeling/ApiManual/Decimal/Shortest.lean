import ApiManual.Decimal.Binary64

/-!
# Shortest decimals

The decimal that stands for a floating-point number: of all decimals that round to
it, one with the fewest digits, and of those the one nearest to it.

The decimals that round to a number fill an interval around it, closed when the
mantissa is even.  With `n` digits the decimals form a grid; if any point of the
grid lies in the interval, so does one of the two neighbours of the number itself
on that grid.  So it is enough to look at two candidates for each `n`, and
seventeen digits always suffice.
-/

namespace ApiManual

/-- A positive decimal: `digits · 10 ^ exponent`. -/
structure Decimal where
  digits : Nat
  exponent : Int
  deriving DecidableEq, Repr

namespace Decimal

/-- How many decimal digits a number has; zero has one. -/
def length (n : Nat) : Nat := (Nat.toDigits 10 n).length

/-- The power of ten at the first digit of the quotient `num / den`. -/
def leadingPower (num den : Nat) : Int :=
  if den ≤ num then (length (num / den) : Int) - 1
  else -(length ((den + num - 1) / num - 1) : Int)

/-- A decimal without trailing zeros; `fuel` bounds how many are dropped. -/
def dropZeros (fuel : Nat) (d : Decimal) : Decimal :=
  match fuel with
  | 0 => d
  | fuel + 1 =>
    if d.digits ≠ 0 ∧ d.digits % 10 = 0 then dropZeros fuel ⟨d.digits / 10, d.exponent + 1⟩
    else d

/-- An interval of quotients around `value`, all over the denominator `den`. -/
structure Interval where
  lower : Nat
  value : Nat
  upper : Nat
  den : Nat
  closed : Bool

namespace Interval

/-- The numbers that round to `mantissa · 2 ^ exponent`.  Below a power of two the
neighbour is only half as far away. -/
def around (mantissa : Nat) (exponent : Int) : Interval :=
  let below := if mantissa = Nat.pow 2 52 ∧ Binary64.leastExponent < exponent then 1 else 2
  let e := exponent - 2
  let scale := Nat.pow 2 e.toNat
  ⟨(4 * mantissa - below) * scale, 4 * mantissa * scale, (4 * mantissa + 2) * scale,
    Nat.pow 2 (-e).toNat, mantissa % 2 = 0⟩

/-- Whether the quotient `num / den` of the interval's denominator scaled by
`times` lies in it. -/
def holds (i : Interval) (times num : Nat) : Bool :=
  if i.closed then i.lower * times ≤ num && num ≤ i.upper * times
  else i.lower * times < num && num < i.upper * times

/-- The nearest point of the interval on the grid of tens `10 ^ power`, if the grid
has a point in it. -/
def onGrid? (i : Interval) (power : Int) : Option Nat :=
  let times := Nat.pow 10 (-power).toNat
  let step := Nat.pow 10 power.toNat * i.den
  let down := i.value * times / step
  let rest := i.value * times % step
  let low := i.holds times (down * step)
  let high := i.holds times ((down + 1) * step)
  if low && high then
    if 2 * rest < step then some down
    else if step < 2 * rest then some (down + 1)
    else if down % 2 = 0 then some down else some (down + 1)
  else if low then some down
  else if high then some (down + 1)
  else none

end Interval

/-- The first grid with a point in the interval, from `count` digits upwards. -/
def search (i : Interval) (lead : Int) : (tries count : Nat) → Decimal
  | 0, _ => ⟨0, 0⟩
  | tries + 1, count =>
    let power := lead - count + 1
    match i.onGrid? power with
    | some d => ⟨d, power⟩
    | none => search i lead tries (count + 1)

/-- The shortest decimal of a positive number `mantissa · 2 ^ exponent`. -/
def shortest (mantissa : Nat) (exponent : Int) : Decimal :=
  let i := Interval.around mantissa exponent
  dropZeros 400 (search i (leadingPower i.value i.den) 17 1)

end Decimal
end ApiManual
