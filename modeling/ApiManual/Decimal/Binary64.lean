/-!
# Binary floating-point numbers

Numbers of 64 bits as the standard lays them out: a sign, a whole mantissa below
2⁵³ and a power of two.  A number is held in the one form that the standard gives
it, so equal numbers are equal as data (the two zeros apart, which differ), and
all arithmetic is exact arithmetic on naturals followed by one rounding.
-/

namespace ApiManual

/-- A floating-point number.  `finite s m e` stands for `m · 2 ^ e`, negative when
`s` says so, where `m < 2 ^ 53` and either `2 ^ 52 ≤ m` or `e = -1074`. -/
inductive Binary64 where
  | nan
  | infinite (negative : Bool)
  | finite (negative : Bool) (mantissa : Nat) (exponent : Int)
  deriving DecidableEq, Repr

namespace Binary64

/-- The least exponent, at which the mantissa may be small. -/
def leastExponent : Int := -1074

/-- The greatest exponent of a finite number. -/
def greatestExponent : Int := 971

/-- Zero, with its sign. -/
def zero (negative : Bool) : Binary64 := .finite negative 0 leastExponent

/-- A quotient rounded to the nearest whole number, a half to the even one. -/
def roundDiv (num den : Nat) : Nat :=
  let q := num / den
  let r := num % den
  if 2 * r < den then q
  else if den < 2 * r then q + 1
  else if q % 2 = 0 then q else q + 1

/-- The quotient `num / den` in units of `2 ^ e`, again as a quotient. -/
def inUnits (num den : Nat) (e : Int) : Nat × Nat :=
  if 0 ≤ e then (num, den * Nat.pow 2 e.toNat) else (num * Nat.pow 2 (-e).toNat, den)

/-- The number nearest to `num / den`, of two equally near ones the one with the
even mantissa; beyond the greatest number it is infinite. -/
def ofRatio (negative : Bool) (num den : Nat) : Binary64 :=
  if num = 0 then zero negative
  else
    let e₀ : Int := max ((num.log2 : Int) - den.log2 - 53) leastExponent
    let u := inUnits num den e₀
    let e := if Nat.pow 2 53 ≤ u.1 / u.2 then e₀ + 1 else e₀
    let v := inUnits num den e
    let m := roundDiv v.1 v.2
    let (m, e) := if m = Nat.pow 2 53 then (Nat.pow 2 52, e + 1) else (m, e)
    if greatestExponent < e then .infinite negative else .finite negative m e

/-- The number nearest to an integer. -/
def ofInt (n : Int) : Binary64 := ofRatio (n < 0) n.natAbs 1

/-- The number nearest to `digits · 10 ^ exponent`.  Exponents that no mantissa of
that length can bring back into range are settled by their size alone. -/
def ofDecimal (negative : Bool) (digits : Nat) (exponent : Int) : Binary64 :=
  if digits = 0 then zero negative
  else
    let size : Int := (Nat.toDigits 10 digits).length + exponent
    if 400 < size then .infinite negative
    else if size < -400 then zero negative
    else if 0 ≤ exponent then ofRatio negative (digits * Nat.pow 10 exponent.toNat) 1
    else ofRatio negative digits (Nat.pow 10 (-exponent).toNat)

/-- The number with the other sign. -/
def neg : Binary64 → Binary64
  | .nan => .nan
  | .infinite s => .infinite !s
  | .finite s m e => .finite (!s) m e

/-- A finite number as a whole number of units `2 ^ -1074`. -/
def units (negative : Bool) (m : Nat) (e : Int) : Int :=
  let n : Int := (m * Nat.pow 2 (e - leastExponent).toNat : Nat)
  if negative then -n else n

/-- The number nearest to a sum. -/
def add : Binary64 → Binary64 → Binary64
  | .nan, _ => .nan
  | _, .nan => .nan
  | .infinite s, .infinite t => if s = t then .infinite s else .nan
  | .infinite s, _ => .infinite s
  | _, .infinite t => .infinite t
  | .finite s m e, .finite t n f =>
    let sum := units s m e + units t n f
    if sum = 0 then zero (s && t)
    else ofRatio (sum < 0) sum.natAbs (Nat.pow 2 1074)

/-- The number nearest to a product. -/
def mul : Binary64 → Binary64 → Binary64
  | .nan, _ => .nan
  | _, .nan => .nan
  | .infinite s, .infinite t => .infinite (s != t)
  | .infinite s, .finite t n _ => if n = 0 then .nan else .infinite (s != t)
  | .finite s m _, .infinite t => if m = 0 then .nan else .infinite (s != t)
  | .finite s m e, .finite t n f =>
    let k := e + f
    if 0 ≤ k then ofRatio (s != t) (m * n * Nat.pow 2 k.toNat) 1
    else ofRatio (s != t) (m * n) (Nat.pow 2 (-k).toNat)

/-- The whole number that a number is, if it is one. -/
def toInt? : Binary64 → Option Int
  | .finite s m e =>
    let signed (n : Nat) : Int := if s then -(n : Int) else n
    if 0 ≤ e then some (signed (m * Nat.pow 2 e.toNat))
    else
      let d := Nat.pow 2 (-e).toNat
      if m % d = 0 then some (signed (m / d)) else none
  | _ => none

/-- Whether a number is neither infinite nor no number. -/
def isFinite : Binary64 → Bool
  | .finite .. => true
  | _ => false

end Binary64
end ApiManual
