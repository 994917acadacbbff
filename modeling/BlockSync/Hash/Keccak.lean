import BlockSync.Bytes

/-! Keccak-256 with its first padding (a single `0x01` byte, not the later
`0x06`). The permutation is written on five planes of five lanes; the sponge
absorbs 136 bytes a block and gives the first 32 bytes of the final state. -/
namespace BlockSync.Keccak

structure Plane where
  a : UInt64
  b : UInt64
  c : UInt64
  d : UInt64
  e : UInt64

namespace Plane

def zero : Plane := ⟨0, 0, 0, 0, 0⟩

def xor (x y : Plane) : Plane :=
  ⟨x.a ^^^ y.a, x.b ^^^ y.b, x.c ^^^ y.c, x.d ^^^ y.d, x.e ^^^ y.e⟩

/-- Each lane is changed by its two right-hand neighbours. -/
def chi (p : Plane) : Plane :=
  ⟨p.a ^^^ (~~~p.b &&& p.c), p.b ^^^ (~~~p.c &&& p.d), p.c ^^^ (~~~p.d &&& p.e),
    p.d ^^^ (~~~p.e &&& p.a), p.e ^^^ (~~~p.a &&& p.b)⟩

end Plane

structure State where
  p0 : Plane
  p1 : Plane
  p2 : Plane
  p3 : Plane
  p4 : Plane

def rotate (x : UInt64) (n : UInt64) : UInt64 :=
  (x <<< n) ||| (x >>> (64 - n))

def theta (s : State) : State :=
  let c := (((s.p0.xor s.p1).xor s.p2).xor s.p3).xor s.p4
  let d : Plane :=
    ⟨c.e ^^^ rotate c.b 1, c.a ^^^ rotate c.c 1, c.b ^^^ rotate c.d 1,
      c.c ^^^ rotate c.e 1, c.d ^^^ rotate c.a 1⟩
  ⟨s.p0.xor d, s.p1.xor d, s.p2.xor d, s.p3.xor d, s.p4.xor d⟩

/-- Rotation of every lane and the move of the lane in column `x`, row `y` to
column `y`, row `2x + 3y`. -/
def rhoPi (s : State) : State :=
  { p0 := ⟨s.p0.a, rotate s.p1.b 44, rotate s.p2.c 43, rotate s.p3.d 21, rotate s.p4.e 14⟩
    p1 := ⟨rotate s.p0.d 28, rotate s.p1.e 20, rotate s.p2.a 3, rotate s.p3.b 45, rotate s.p4.c 61⟩
    p2 := ⟨rotate s.p0.b 1, rotate s.p1.c 6, rotate s.p2.d 25, rotate s.p3.e 8, rotate s.p4.a 18⟩
    p3 := ⟨rotate s.p0.e 27, rotate s.p1.a 36, rotate s.p2.b 10, rotate s.p3.c 15, rotate s.p4.d 56⟩
    p4 := ⟨rotate s.p0.c 62, rotate s.p1.d 55, rotate s.p2.e 39, rotate s.p3.a 41, rotate s.p4.b 2⟩ }

def round (s : State) (constant : UInt64) : State :=
  let t := rhoPi (theta s)
  let p0 := t.p0.chi
  ⟨{ p0 with a := p0.a ^^^ constant }, t.p1.chi, t.p2.chi, t.p3.chi, t.p4.chi⟩

def roundConstants : List UInt64 :=
  [0x0000000000000001, 0x0000000000008082, 0x800000000000808a, 0x8000000080008000,
   0x000000000000808b, 0x0000000080000001, 0x8000000080008081, 0x8000000000008009,
   0x000000000000008a, 0x0000000000000088, 0x0000000080008009, 0x000000008000000a,
   0x000000008000808b, 0x800000000000008b, 0x8000000000008089, 0x8000000000008003,
   0x8000000000008002, 0x8000000000000080, 0x000000000000800a, 0x800000008000000a,
   0x8000000080008081, 0x8000000000008080, 0x0000000080000001, 0x8000000080008008]

def permute (s : State) : State :=
  roundConstants.foldl round s

def rate : Nat := 136

/-- The lane at `8 * i` of a block that starts at `start`, least byte first. -/
def lane (message : Array UInt8) (start i : Nat) : UInt64 :=
  let byte (j : Nat) : UInt64 := (message.getD (start + 8 * i + j) 0).toUInt64
  byte 0 ||| (byte 1 <<< 8) ||| (byte 2 <<< 16) ||| (byte 3 <<< 24) |||
    (byte 4 <<< 32) ||| (byte 5 <<< 40) ||| (byte 6 <<< 48) ||| (byte 7 <<< 56)

/-- The seventeen lanes of a block are xored into the first lanes of the state. -/
def absorb (s : State) (message : Array UInt8) (start : Nat) : State :=
  let l := lane message start
  permute
    { p0 := s.p0.xor ⟨l 0, l 1, l 2, l 3, l 4⟩
      p1 := s.p1.xor ⟨l 5, l 6, l 7, l 8, l 9⟩
      p2 := s.p2.xor ⟨l 10, l 11, l 12, l 13, l 14⟩
      p3 := s.p3.xor ⟨l 15, l 16, 0, 0, 0⟩
      p4 := s.p4 }

def padded (message : Bytes) : Array UInt8 :=
  let fill := rate - message.length % rate
  let tail :=
    if fill = 1 then [0x81] else 0x01 :: (List.replicate (fill - 2) 0 ++ [0x80])
  (message ++ tail).toArray

def digest (message : Bytes) : Bytes :=
  let blocks := padded message
  let s := (List.range (blocks.size / rate)).foldl (fun s i => absorb s blocks (rate * i))
    ⟨.zero, .zero, .zero, .zero, .zero⟩
  [s.p0.a, s.p0.b, s.p0.c, s.p0.d].flatMap fun l => Bytes.littleEndian 8 l.toNat

end BlockSync.Keccak
