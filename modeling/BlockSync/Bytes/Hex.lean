import BlockSync.Bytes
import BlockSync.Text.Quoted

/-! Hexadecimal text of byte strings. Writing is lower case, two digits a byte.
Reading into a fixed width takes either case and looks at the UTF-8 bytes of the
text: first their parity, then their number, then each digit from the left. -/
namespace BlockSync

inductive HexError where
  | oddLength
  | wrongLength
  | invalidCharacter (char : Char) (position : Nat)
  deriving DecidableEq, Repr

def HexError.message : HexError → String
  | .oddLength => "Odd number of digits"
  | .wrongLength => "Invalid string length"
  | .invalidCharacter char position =>
    s!"Invalid character {Text.quoteChar char} at position {position}"

namespace Hex

def digit (n : Nat) : Char :=
  if n < 10 then Char.ofNat (48 + n) else Char.ofNat (87 + n)

def encodeList : Bytes → List Char
  | [] => []
  | b :: rest => digit (b.toNat / 16) :: digit (b.toNat % 16) :: encodeList rest

def encode (bytes : Bytes) : String :=
  String.ofList (encodeList bytes)

def digitValue (c : UInt8) : Option Nat :=
  if 48 ≤ c ∧ c ≤ 57 then some (c.toNat - 48)
  else if 97 ≤ c ∧ c ≤ 102 then some (c.toNat - 87)
  else if 65 ≤ c ∧ c ≤ 70 then some (c.toNat - 55)
  else none

def value (c : UInt8) (position : Nat) : Except HexError Nat :=
  match digitValue c with
  | some n => .ok n
  | none => .error (.invalidCharacter (Char.ofNat c.toNat) position)

def decodePairs : Bytes → Nat → Except HexError Bytes
  | high :: low :: rest, position => do
    let h ← value high position
    let l ← value low (position + 1)
    let tail ← decodePairs rest (position + 2)
    return UInt8.ofNat (16 * h + l) :: tail
  | _, _ => .ok []

def decode (width : Nat) (text : String) : Except HexError Bytes :=
  let digits := text.toUTF8.toList
  if digits.length % 2 = 1 then .error .oddLength
  else if digits.length / 2 ≠ width then .error .wrongLength
  else decodePairs digits 0

end Hex

end BlockSync
