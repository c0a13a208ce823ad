/-!
# Binary64 numbers

A finite nonnegative binary64 number is `mantissa · 2 ^ exponent` with a mantissa below 2^53.
`ofRatio` rounds a ratio of naturals to the nearest such number, a tie to the even mantissa; sums
and products are exact ratios rounded once.  Everything is arithmetic on naturals.
-/

namespace Relay.Decimal

/-- The number `mantissa · 2 ^ exponent`. -/
structure Binary64 where
  mantissa : Nat
  exponent : Int
  deriving DecidableEq, Repr, Inhabited

namespace Binary64

/-- The least exponent, that of the numbers nearest to zero. -/
def leastExponent : Int := -1074

/-- The exponent of the numbers nearest to 2^1024. -/
def greatestExponent : Int := 971

/-- The quotient `num / den` rounded to the nearest natural, a half to the even one. -/
def roundDiv (num den : Nat) : Nat :=
  let q := num / den
  let r := num % den
  if 2 * r < den then q
  else if den < 2 * r then q + 1
  else if q % 2 = 0 then q else q + 1

/-- `num / den` as a ratio in units of `2 ^ e`. -/
def inUnits (num den : Nat) (e : Int) : Nat × Nat :=
  if 0 ≤ e then (num, den * Nat.pow 2 e.toNat) else (num * Nat.pow 2 (-e).toNat, den)

/-- The exponent at which `num / den` has a mantissa of 53 bits, or the least exponent. -/
def exponentOf (num den : Nat) : Int :=
  let guess : Int := (Nat.log2 num : Int) - (Nat.log2 den : Int) - 52
  let unit : Int → Nat := fun e => let (n, d) := inUnits num den e; n / d
  let e := if Nat.pow 2 53 ≤ unit guess then guess + 1
    else if unit guess < Nat.pow 2 52 then guess - 1 else guess
  max e leastExponent

/-- The binary64 number nearest to `num / den`, whatever its size. -/
def ofRatio (num den : Nat) : Binary64 :=
  if num = 0 then ⟨0, leastExponent⟩
  else
    let e := exponentOf num den
    let (n, d) := inUnits num den e
    let m := roundDiv n d
    if m = Nat.pow 2 53 then ⟨Nat.pow 2 52, e + 1⟩ else ⟨m, e⟩

/-- The value as a ratio. -/
def ratio (x : Binary64) : Nat × Nat :=
  if 0 ≤ x.exponent then (x.mantissa * Nat.pow 2 x.exponent.toNat, 1)
  else (x.mantissa, Nat.pow 2 (-x.exponent).toNat)

/-- The sum, rounded once. -/
def add (x y : Binary64) : Binary64 :=
  let (a, b) := x.ratio
  let (c, d) := y.ratio
  ofRatio (a * d + c * b) (b * d)

/-- The product, rounded once. -/
def mul (x y : Binary64) : Binary64 :=
  let (a, b) := x.ratio
  let (c, d) := y.ratio
  ofRatio (a * c) (b * d)

/-- The number is too large for the format. -/
def overflows (x : Binary64) : Bool := greatestExponent < x.exponent

end Binary64

end Relay.Decimal
