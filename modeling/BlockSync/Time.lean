import BlockSync.Decimal.Fixed

/-! Points in time and lengths of time, in nanoseconds. An instant that lies later
than another is no time before it. -/
namespace BlockSync

abbrev Instant := Nat

abbrev Duration := Nat

namespace Duration

def milliseconds (n : Nat) : Duration := n * 1000000

def seconds (n : Nat) : Duration := n * 1000000000

/-- The seconds of a duration as the nearest number that the machine has. -/
def inSeconds (d : Duration) : Float :=
  Float.ofNat (d / 1000000000) + Float.ofNat (d % 1000000000) / Float.ofNat 1000000000

/-- The duration nearest to a number of seconds. -/
def ofSeconds (x : Float) : Duration :=
  let (numerator, denominator) := (Decimal.Dyadic.ofBits x.toBits).quotient
  Decimal.nearest (numerator * 1000000000) denominator

end Duration

def Instant.since (later earlier : Instant) : Duration :=
  later - earlier

end BlockSync
