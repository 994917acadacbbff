import BlockSync.Bytes

/-! SHA-256 and its keyed form HMAC. -/
namespace BlockSync.Sha256

structure State where
  a : UInt32
  b : UInt32
  c : UInt32
  d : UInt32
  e : UInt32
  f : UInt32
  g : UInt32
  h : UInt32

def initial : State :=
  ⟨0x6a09e667, 0xbb67ae85, 0x3c6ef372, 0xa54ff53a, 0x510e527f, 0x9b05688c, 0x1f83d9ab, 0x5be0cd19⟩

def roundConstants : List UInt32 :=
  [0x428a2f98, 0x71374491, 0xb5c0fbcf, 0xe9b5dba5, 0x3956c25b, 0x59f111f1, 0x923f82a4, 0xab1c5ed5,
   0xd807aa98, 0x12835b01, 0x243185be, 0x550c7dc3, 0x72be5d74, 0x80deb1fe, 0x9bdc06a7, 0xc19bf174,
   0xe49b69c1, 0xefbe4786, 0x0fc19dc6, 0x240ca1cc, 0x2de92c6f, 0x4a7484aa, 0x5cb0a9dc, 0x76f988da,
   0x983e5152, 0xa831c66d, 0xb00327c8, 0xbf597fc7, 0xc6e00bf3, 0xd5a79147, 0x06ca6351, 0x14292967,
   0x27b70a85, 0x2e1b2138, 0x4d2c6dfc, 0x53380d13, 0x650a7354, 0x766a0abb, 0x81c2c92e, 0x92722c85,
   0xa2bfe8a1, 0xa81a664b, 0xc24b8b70, 0xc76c51a3, 0xd192e819, 0xd6990624, 0xf40e3585, 0x106aa070,
   0x19a4c116, 0x1e376c08, 0x2748774c, 0x34b0bcb5, 0x391c0cb3, 0x4ed8aa4a, 0x5b9cca4f, 0x682e6ff3,
   0x748f82ee, 0x78a5636f, 0x84c87814, 0x8cc70208, 0x90befffa, 0xa4506ceb, 0xbef9a3f7, 0xc67178f2]

def rotate (x : UInt32) (n : UInt32) : UInt32 :=
  (x >>> n) ||| (x <<< (32 - n))

/-- The word at `4 * i` of a block that starts at `start`, greatest byte first. -/
def word (message : Array UInt8) (start i : Nat) : UInt32 :=
  let byte (j : Nat) : UInt32 := (message.getD (start + 4 * i + j) 0).toUInt32
  (byte 0 <<< 24) ||| (byte 1 <<< 16) ||| (byte 2 <<< 8) ||| byte 3

/-- Sixteen words of the block, then each word from four earlier ones. -/
def schedule (message : Array UInt8) (start : Nat) : Array UInt32 :=
  let first := ((List.range 16).map (word message start)).toArray
  (List.range 48).foldl (fun w i =>
    let back (k : Nat) : UInt32 := w.getD (i + k) 0
    let s0 := rotate (back 1) 7 ^^^ rotate (back 1) 18 ^^^ (back 1 >>> 3)
    let s1 := rotate (back 14) 17 ^^^ rotate (back 14) 19 ^^^ (back 14 >>> 10)
    w.push (back 0 + s0 + back 9 + s1)) first

def round (s : State) (k w : UInt32) : State :=
  let s1 := rotate s.e 6 ^^^ rotate s.e 11 ^^^ rotate s.e 25
  let choice := (s.e &&& s.f) ^^^ (~~~s.e &&& s.g)
  let t1 := s.h + s1 + choice + k + w
  let s0 := rotate s.a 2 ^^^ rotate s.a 13 ^^^ rotate s.a 22
  let majority := (s.a &&& s.b) ^^^ (s.a &&& s.c) ^^^ (s.b &&& s.c)
  ⟨t1 + (s0 + majority), s.a, s.b, s.c, s.d + t1, s.e, s.f, s.g⟩

def compress (s : State) (message : Array UInt8) (start : Nat) : State :=
  let w := schedule message start
  let t := (roundConstants.zip w.toList).foldl (fun t (k, w) => round t k w) s
  ⟨s.a + t.a, s.b + t.b, s.c + t.c, s.d + t.d, s.e + t.e, s.f + t.f, s.g + t.g, s.h + t.h⟩

def padded (message : Bytes) : Array UInt8 :=
  let zeros := (119 - message.length % 64) % 64
  (message ++ 0x80 :: (List.replicate zeros 0 ++ Bytes.bigEndian 8 (8 * message.length))).toArray

def digest (message : Bytes) : Bytes :=
  let blocks := padded message
  let s := (List.range (blocks.size / 64)).foldl (fun s i => compress s blocks (64 * i)) initial
  [s.a, s.b, s.c, s.d, s.e, s.f, s.g, s.h].flatMap fun w => Bytes.bigEndian 4 w.toNat

/-- The keyed digest of a message under a key of at most 64 bytes. -/
def hmac (key message : Bytes) : Bytes :=
  let key := key ++ List.replicate (64 - key.length) 0
  digest (key.map (· ^^^ 0x5c) ++ digest (key.map (· ^^^ 0x36) ++ message))

end BlockSync.Sha256
