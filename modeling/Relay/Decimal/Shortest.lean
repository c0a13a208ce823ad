import Relay.Decimal.Binary64

/-!
# Shortest decimals

The fewest significant digits that read back as a given binary64 number: among the decimals of
that length inside the rounding interval of the number, the one nearest to it.  They are written
positionally, never with an exponent, and a whole number has no point.
-/

namespace Relay.Decimal

/-- The decimal `digits · 10 ^ scale`. -/
structure Digits where
  digits : Nat
  scale : Int
  deriving DecidableEq, Repr, Inhabited

/-- `n / d` against `digits · 10 ^ scale`. -/
def compareRatio (n d : Nat) (x : Digits) : Ordering :=
  if 0 ≤ x.scale then compare n (x.digits * Nat.pow 10 x.scale.toNat * d)
  else compare (n * Nat.pow 10 (-x.scale).toNat) (x.digits * d)

/-- The reals that round to `x`, as two ratios in units of a quarter of its last place.  Below a
power of two the neighbour is half as far. -/
def Binary64.quarters (x : Binary64) : Nat × Nat :=
  let low :=
    if x.mantissa = Nat.pow 2 52 ∧ leastExponent < x.exponent then 4 * x.mantissa - 1
    else 4 * x.mantissa - 2
  (low, 4 * x.mantissa + 2)

/-- `q` quarters of the last place of `x`, as a ratio. -/
def Binary64.quarterRatio (x : Binary64) (q : Nat) : Nat × Nat :=
  let e := x.exponent - 2
  if 0 ≤ e then (q * Nat.pow 2 e.toNat, 1) else (q, Nat.pow 2 (-e).toNat)

/-- The decimal lies in the rounding interval of `x`; its ends belong to it when the mantissa is
even. -/
def Binary64.accepts (x : Binary64) (d : Digits) : Bool :=
  let (lo, hi) := x.quarters
  let (ln, ld) := x.quarterRatio lo
  let (hn, hd) := x.quarterRatio hi
  let below := compareRatio ln ld d
  let above := compareRatio hn hd d
  if x.mantissa % 2 = 0 then below != .gt && above != .lt else below == .lt && above == .gt

/-- The two neighbours of `x` among the multiples of `10 ^ scale`. -/
def Binary64.neighbours (x : Binary64) (scale : Int) : Nat :=
  let (n, d) := x.ratio
  if 0 ≤ scale then n / (d * Nat.pow 10 scale.toNat) else n * Nat.pow 10 (-scale).toNat / d

/-- The nearer of the accepted neighbours on the grid of `10 ^ scale`; a tie goes to the even
one. -/
def Binary64.onGrid (x : Binary64) (scale : Int) : Option Digits :=
  let f := x.neighbours scale
  let lo : Digits := ⟨f, scale⟩
  let hi : Digits := ⟨f + 1, scale⟩
  let (n, d) := x.ratio
  let middle : Digits := ⟨10 * f + 5, scale - 1⟩
  match x.accepts lo, x.accepts hi with
  | false, false => none
  | true, false => some lo
  | false, true => some hi
  | true, true =>
    match compareRatio n d middle with
    | .lt => some lo
    | .gt => some hi
    | .eq => if f % 2 = 0 then some lo else some hi

/-- The exponent of the first digit of a positive ratio. -/
def leadingPlace (n d : Nat) : Int :=
  let whole := n / d
  if 0 < whole then (Nat.toDigits 10 whole).length - 1
  else
    let places := (List.range 400).find? fun k => d ≤ n * Nat.pow 10 (k + 1)
    Int.negSucc (places.getD 0)

/-- The shortest decimal that reads back as `x`. -/
def Binary64.shortest (x : Binary64) : Digits :=
  let (n, d) := x.ratio
  if n = 0 then ⟨0, 0⟩
  else
    let top := leadingPlace n d
    let found := (List.range 18).findSome? fun (k : Nat) => x.onGrid (top - k)
    found.getD ⟨n / d, 0⟩

/-- The decimal in positional notation. -/
def Digits.positional (x : Digits) : String :=
  let ds := Nat.toDigits 10 x.digits
  if x.digits = 0 then "0"
  else if 0 ≤ x.scale then String.ofList (ds ++ List.replicate x.scale.toNat '0')
  else
    let places := (-x.scale).toNat
    let padded := List.replicate (places + 1 - ds.length) '0' ++ ds
    let whole := padded.take (padded.length - places)
    let fraction := (padded.drop (padded.length - places)).reverse.dropWhile (· == '0')
    if fraction.isEmpty then String.ofList whole
    else String.ofList (whole ++ '.' :: fraction.reverse)

end Relay.Decimal
