import BlockSync.Block
import BlockSync.Signature

/-! The rules a header has to keep before it is taken from a peer. A validator is
a list of rules; the first that fails decides. -/
namespace BlockSync

inductive HeaderError where
  | extraDataTooLong (length max : Nat)
  | futureTimestamp (timestamp now : UInt64)
  | malformedPublicKey
  | malformedSignature
  | badSignature
  deriving DecidableEq, Repr

def HeaderError.message : HeaderError → String
  | extraDataTooLong length max => s!"extra data too long: {length} > {max}"
  | futureTimestamp timestamp now => s!"timestamp {timestamp} is ahead of local clock {now}"
  | malformedPublicKey => "malformed signing public key"
  | malformedSignature => "malformed signature"
  | badSignature => "signature does not match mine hash"

inductive HeaderRule where
  | extraData (maxLength : Nat)
  | futureTimestamp (maxDrift : UInt64)
  | signature
  deriving DecidableEq, Repr

structure ChainConfig where
  maxPendingBlocks : Nat := 4096
  maxExtraDataLength : Nat := 32
  maxFutureDrift : UInt64 := 15
  deriving DecidableEq, Repr

/-- The latest timestamp allowed at a time; the sum stops at the greatest number. -/
def latestTimestamp (now drift : UInt64) : Nat :=
  min (now.toNat + drift.toNat) (UInt64.size - 1)

namespace HeaderRule

def name : HeaderRule → String
  | extraData _ => "extra_data"
  | futureTimestamp _ => "future_timestamp"
  | signature => "signature"

def check (scheme : SignatureScheme) (now : UInt64) (rule : HeaderRule) (h : Header) :
    Except HeaderError Unit :=
  match rule with
  | extraData maxLength =>
    if h.extraData.length > maxLength then
      .error (.extraDataTooLong h.extraData.length maxLength)
    else .ok ()
  | futureTimestamp maxDrift =>
    if h.timestamp.toNat > latestTimestamp now maxDrift then
      .error (.futureTimestamp h.timestamp now)
    else .ok ()
  | signature =>
    match scheme.verify h.publicKey h.mineHash.toBytes h.signature with
    | .ok () => .ok ()
    | .error .malformedKey => .error .malformedPublicKey
    | .error .malformedSignature => .error .malformedSignature
    | .error .mismatch => .error .badSignature

def standard (config : ChainConfig) : List HeaderRule :=
  [extraData config.maxExtraDataLength, futureTimestamp config.maxFutureDrift, signature]

end HeaderRule

def validateHeader (scheme : SignatureScheme) (now : UInt64) (rules : List HeaderRule) (h : Header) :
    Except HeaderError Unit :=
  rules.forM fun rule => rule.check scheme now h

end BlockSync
