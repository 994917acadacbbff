import BlockSync.Block

/-! A header as a list of named fields, which is how it is shown: hashes and the
difficulty as `0x` text, the difficulty without leading zeros, bytes as numbers. -/
namespace BlockSync

inductive FieldValue where
  | number (n : UInt64)
  | text (s : String)
  | bytes (b : Bytes)
  deriving DecidableEq, Repr

/-- Hexadecimal without leading zeros, behind `0x`. -/
def quantityText (n : Nat) : String :=
  "0x" ++ String.ofList (Nat.toDigits 16 n)

def readQuantity? (text : String) : Option Nat :=
  match text.toList with
  | '0' :: 'x' :: digits =>
    if digits.isEmpty then none
    else digits.foldl
      (fun n c => do
        let d ← Hex.digitValue (UInt8.ofNat c.toNat)
        return 16 * (← n) + d)
      (some 0)
  | _ => none

def Hash.prefixedText (h : Hash) : String :=
  "0x" ++ h.text

def Hash.ofPrefixedText? (text : String) : Option Hash :=
  match text.toList with
  | '0' :: 'x' :: digits => (Hash.ofText (String.ofList digits)).toOption
  | _ => none

namespace Header

def fields (h : Header) : List (String × FieldValue) :=
  [("number", .number h.number), ("parentHash", .text h.parentHash.prefixedText),
    ("timestamp", .number h.timestamp), ("difficulty", .text (quantityText h.difficulty.toNat)),
    ("txRoot", .text h.txRoot.prefixedText), ("extraData", .bytes h.extraData),
    ("signingPublicKey", .bytes h.publicKey), ("signature", .bytes h.signature)]

def ofFields? : List (String × FieldValue) → Option Header
  | [(_, .number number), (_, .text parent), (_, .number timestamp), (_, .text difficulty),
      (_, .text root), (_, .bytes extra), (_, .bytes key), (_, .bytes signature)] => do
    let parent ← Hash.ofPrefixedText? parent
    let difficulty ← readQuantity? difficulty
    let root ← Hash.ofPrefixedText? root
    return ⟨number, parent, timestamp, BitVec.ofNat 256 difficulty, root, extra, key, signature⟩
  | _ => none

end Header

end BlockSync
