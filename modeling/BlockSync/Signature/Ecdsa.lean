import BlockSync.Hash.Sha256
import BlockSync.Signature
import BlockSync.Signature.Curve

/-! Signatures on the curve over the SHA-256 digest of a message. The nonce is
drawn deterministically from the key and the digest, and of `s` and `order - s`
the lower is written; reading refuses the higher. -/
namespace BlockSync.Ecdsa

open Curve

def scalar? (bytes : Bytes) : Option Nat :=
  let n := Bytes.ofBigEndian bytes
  if bytes.length = 32 ∧ 0 < n ∧ n < order then some n else none

/-- The generator of nonces: a chaining key and a value, both keyed digests. -/
structure NonceState where
  key : Bytes
  value : Bytes

namespace NonceState

def step (s : NonceState) (suffix : Bytes) : NonceState :=
  let key := Sha256.hmac s.key (s.value ++ suffix)
  ⟨key, Sha256.hmac key s.value⟩

def initial (secret digest : Bytes) : NonceState :=
  let s : NonceState := ⟨List.replicate 32 0, List.replicate 32 1⟩
  (s.step (0 :: secret ++ digest)).step (1 :: secret ++ digest)

end NonceState

/-- A nonce with the pair `(r, s)` it leads to; a draw outside the group or one
that makes `r` or `s` zero is skipped. -/
def draw (secret digest : Nat) : Nat → NonceState → Option (Nat × Nat)
  | 0, _ => none
  | tries + 1, state =>
    let value := Sha256.hmac state.key state.value
    let next := NonceState.step { state with value := value } [0]
    match scalar? value with
    | none => draw secret digest tries next
    | some k =>
      match (Point.multiple k .generator).affine? with
      | none => draw secret digest tries next
      | some (x, _) =>
        let r := x % order
        let s := inverse order k * (digest + r * secret) % order
        if r = 0 ∨ s = 0 then draw secret digest tries next
        else some (r, if s > order / 2 then order - s else s)

def digestScalar (message : Bytes) : Nat :=
  Bytes.ofBigEndian (Sha256.digest message) % order

def sign (secret : Nat) (message : Bytes) : Bytes :=
  let digest := digestScalar message
  let state := NonceState.initial (Bytes.bigEndian 32 secret) (Bytes.bigEndian 32 digest)
  match draw secret digest 64 state with
  | some (r, s) => Bytes.bigEndian 32 r ++ Bytes.bigEndian 32 s
  | none => []

/-- The compressed form: the parity of the second coordinate, then the first. -/
def publicKey (secret : Nat) : Bytes :=
  match (Point.multiple secret .generator).affine? with
  | some (x, y) => (if y % 2 = 1 then 3 else 2) :: Bytes.bigEndian 32 x
  | none => [0]

/-- A point from its compressed form (tag 2 or 3), its full form (tag 4), or its
first coordinate alone (tag 5, meaning the even second coordinate). -/
def readPublicKey : Bytes → Option Point
  | [] => none
  | tag :: rest =>
    if rest.length = 32 then
      let x := Bytes.ofBigEndian rest
      if tag = 2 ∨ tag = 5 then Point.lift? x false
      else if tag = 3 then Point.lift? x true
      else none
    else if rest.length = 64 ∧ tag = 4 then
      let x := Bytes.ofBigEndian (rest.take 32)
      let y := Bytes.ofBigEndian (rest.drop 32)
      if x < prime ∧ y < prime ∧ Point.onCurve x y then some ⟨x, y, 1⟩ else none
    else none

def readSignature (bytes : Bytes) : Option (Nat × Nat) := do
  let r ← scalar? (bytes.take 32)
  let s ← scalar? (bytes.drop 32)
  return (r, s)

def accepts (key : Point) (message : Bytes) (r s : Nat) : Bool :=
  if s > order / 2 then false else
    let w := inverse order s
    let u := digestScalar message * w % order
    let v := r * w % order
    match ((Point.multiple u .generator).add (Point.multiple v key)).affine? with
    | some (x, _) => x % order = r
    | none => false

def verify (key message signature : Bytes) : Except SignatureError Unit :=
  match readPublicKey key with
  | none => .error .malformedKey
  | some point =>
    match readSignature signature with
    | none => .error .malformedSignature
    | some (r, s) => if accepts point message r s then .ok () else .error .mismatch

def scheme : SignatureScheme where
  Key := Nat
  keyOfSeed := scalar?
  publicKey := publicKey
  sign := sign
  verify := verify

end BlockSync.Ecdsa
