/-! The curve `y² = x³ + 7` over the field of `2^256 - 2^32 - 977` elements, with
points in Jacobian coordinates `(X, Y, Z)` for `(X / Z², Y / Z³)`. `Z = 0` is the
point at infinity. -/
namespace BlockSync.Curve

def prime : Nat := 0xfffffffffffffffffffffffffffffffffffffffffffffffffffffffefffffc2f

/-- The number of points of the group that the generator spans. -/
def order : Nat := 0xfffffffffffffffffffffffffffffffebaaedce6af48a03bbfd25e8cd0364141

def powMod (modulus base : Nat) : Nat → Nat → Nat
  | 0, _ => 1 % modulus
  | bits + 1, exponent =>
    let half := powMod modulus (base * base % modulus) bits (exponent / 2)
    if exponent % 2 = 1 then half * base % modulus else half

/-- The inverse of a number that a prime modulus does not divide. -/
def inverse (modulus n : Nat) : Nat :=
  powMod modulus (n % modulus) 256 (modulus - 2)

def sub (a b : Nat) : Nat :=
  (a + prime - b % prime) % prime

structure Point where
  x : Nat
  y : Nat
  z : Nat

namespace Point

def infinity : Point := ⟨1, 1, 0⟩

def generator : Point :=
  ⟨0x79be667ef9dcbbac55a06295ce870b07029bfcdb2dce28d959f2815b16f81798,
    0x483ada7726a3c4655da4fbfc0e1108a8fd17b448a68554199c47d08ffb10d4b8, 1⟩

def double (p : Point) : Point :=
  if p.z = 0 then p else
    let yy := p.y * p.y % prime
    let s := 4 * p.x * yy % prime
    let m := 3 * p.x * p.x % prime
    let x := sub (m * m) (2 * s)
    ⟨x, sub (m * sub s x) (8 * yy * yy), 2 * p.y * p.z % prime⟩

def add (p q : Point) : Point :=
  if p.z = 0 then q
  else if q.z = 0 then p
  else
    let zz1 := p.z * p.z % prime
    let zz2 := q.z * q.z % prime
    let u1 := p.x * zz2 % prime
    let u2 := q.x * zz1 % prime
    let s1 := p.y * zz2 * q.z % prime
    let s2 := q.y * zz1 * p.z % prime
    if u1 = u2 then
      if s1 = s2 then p.double else infinity
    else
      let h := sub u2 u1
      let hh := h * h % prime
      let hhh := h * hh % prime
      let v := u1 * hh % prime
      let r := sub s2 s1
      let x := sub (r * r) (hhh + 2 * v)
      ⟨x, sub (r * sub v x) (s1 * hhh), h * p.z * q.z % prime⟩

/-- Doubling and adding from the least of `bits` binary digits of the factor. -/
def scale (p : Point) : Nat → Nat → Point
  | 0, _ => infinity
  | bits + 1, factor =>
    let rest := scale p.double bits (factor / 2)
    if factor % 2 = 1 then rest.add p else rest

def multiple (factor : Nat) (p : Point) : Point :=
  scale p 256 factor

def affine? (p : Point) : Option (Nat × Nat) :=
  if p.z = 0 then none else
    let w := inverse prime p.z
    let ww := w * w % prime
    some (p.x * ww % prime, p.y * ww * w % prime)

def onCurve (x y : Nat) : Bool :=
  y * y % prime = (x * x * x + 7) % prime

/-- The point with the given first coordinate whose second one has the given parity. -/
def lift? (x : Nat) (odd : Bool) : Option Point :=
  if x ≥ prime then none else
    let root := powMod prime ((x * x * x + 7) % prime) 256 ((prime + 1) / 4)
    if onCurve x root then
      some ⟨x, if (root % 2 = 1) = (odd = true) then root else (prime - root) % prime, 1⟩
    else none

end Point

end BlockSync.Curve
