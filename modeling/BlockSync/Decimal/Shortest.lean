import BlockSync.Decimal.Fixed

/-! The shortest decimal text that reads back as the same double, and of several
the nearest to it. It is written without an exponent. -/
namespace BlockSync.Decimal

/-- A value `digits * 10 ^ exponent`. -/
structure Numeral where
  digits : Nat
  exponent : Int
  deriving DecidableEq, Repr

/-- Quarters of the unit of the mantissa: the reals between the two ends, ends
included if the mantissa is even, read as this double. Below a power of two the
lower neighbour is only half as far. -/
structure Interval where
  low : Nat
  value : Nat
  high : Nat
  closed : Bool
  /-- One quarter is `numerator / denominator`. -/
  numerator : Nat
  denominator : Nat

namespace Interval

def of (d : Dyadic) : Interval :=
  let lone := d.mantissa = 1 <<< 52 ∧ d.exponent > -1074
  let e := d.exponent - 2
  { low := 4 * d.mantissa - (if lone then 1 else 2), value := 4 * d.mantissa
    high := 4 * d.mantissa + 2, closed := d.mantissa % 2 = 0
    numerator := 1 <<< e.toNat, denominator := 1 <<< (-e).toNat }

/-- Both sides of a comparison of `n * 10 ^ exponent` with a number of quarters. -/
def sides (i : Interval) (exponent : Int) (n quarters : Nat) : Nat × Nat :=
  (n * Nat.pow 10 exponent.toNat * i.denominator,
    quarters * i.numerator * Nat.pow 10 (-exponent).toNat)

def contains (i : Interval) (exponent : Int) (n : Nat) : Bool :=
  let (a, low) := i.sides exponent n i.low
  let (_, high) := i.sides exponent n i.high
  if i.closed then low ≤ a && a ≤ high else low < a && a < high

/-- The decimal on the grid `10 ^ exponent` that lies in the interval nearest to
its value, if any does: one of the two that enclose the value. -/
def onGrid? (i : Interval) (exponent : Int) : Option Numeral :=
  let (unit, value) := i.sides exponent 1 i.value
  let below := value / unit
  let up := nearest value unit ≠ below
  let hit (n : Nat) : Option Numeral := if i.contains exponent n then some ⟨n, exponent⟩ else none
  if up then (hit (below + 1)).or (hit below) else (hit below).or (hit (below + 1))

/-- The least number of digits that the whole part of the value is below, or with
none, of how many places the value starts after the point. -/
def scale (i : Interval) : Int :=
  let quotient := i.value * i.numerator
  if quotient ≥ i.denominator then (Nat.toDigits 10 (quotient / i.denominator)).length
  else 1 - (Nat.toDigits 10 (i.denominator / quotient)).length

end Interval

/-- Coarser grids first; seventeen digits always suffice. -/
def shortest (d : Dyadic) : Numeral :=
  if d.mantissa = 0 then ⟨0, 0⟩
  else
    let i := Interval.of d
    ((List.range 18).findSome? fun (n : Nat) => i.onGrid? (i.scale - n)).getD ⟨d.mantissa, 0⟩

/-- The whole number when there are no places, else digits around a point. -/
def Numeral.text (n : Numeral) : String :=
  if n.exponent ≥ 0 then toString (n.digits * Nat.pow 10 n.exponent.toNat)
  else point (-n.exponent).toNat n.digits

def text (x : Float) : String :=
  if x.isNaN then "NaN"
  else
    let d := Dyadic.ofBits x.toBits
    let digits := if x.isInf then "inf" else (shortest d).text
    if d.negative then "-" ++ digits else digits

end BlockSync.Decimal
