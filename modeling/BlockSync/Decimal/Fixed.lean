import BlockSync.Decimal.Dyadic

/-! Decimal text with a fixed number of places. The exact value is rounded, and a
value half way between two texts goes to the even one. -/
namespace BlockSync.Decimal

/-- The whole number nearest to a quotient, the even one of two. -/
def nearest (numerator denominator : Nat) : Nat :=
  let low := numerator / denominator
  let twice := 2 * (numerator % denominator)
  if twice < denominator ∨ (twice = denominator ∧ low % 2 = 0) then low else low + 1

/-- A whole number of units with `places` digits after the point, one at least before it. -/
def point (places units : Nat) : String :=
  let digits := (Nat.toDigits 10 units).leftpad (places + 1) '0'
  let whole := digits.length - places
  if places = 0 then String.ofList digits
  else String.ofList (digits.take whole ++ '.' :: digits.drop whole)

def fixed (places : Nat) (x : Float) : String :=
  let d := Dyadic.ofBits x.toBits
  let (numerator, denominator) := d.quotient
  let text := point places (nearest (numerator * Nat.pow 10 places) denominator)
  if d.negative then "-" ++ text else text

end BlockSync.Decimal
