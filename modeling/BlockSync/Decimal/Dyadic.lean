/-! A double as what it stands for: a sign and a whole number of powers of two. -/
namespace BlockSync.Decimal

structure Dyadic where
  negative : Bool
  mantissa : Nat
  exponent : Int
  deriving DecidableEq, Repr

namespace Dyadic

/-- Eleven bits of exponent and 52 of mantissa; the least exponent has no hidden bit. -/
def ofBits (bits : UInt64) : Dyadic :=
  let fraction := bits.toNat % (1 <<< 52)
  let scale := (bits.toNat >>> 52) % (1 <<< 11)
  let negative := bits.toNat >>> 63 = 1
  if scale = 0 then ⟨negative, fraction, -1074⟩
  else ⟨negative, (1 <<< 52) + fraction, Int.ofNat scale - 1075⟩

def quotient (d : Dyadic) : Nat × Nat :=
  (d.mantissa <<< d.exponent.toNat, 1 <<< (-d.exponent).toNat)

end Dyadic

end BlockSync.Decimal
