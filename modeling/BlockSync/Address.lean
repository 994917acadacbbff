import BlockSync.Layout

/-! Internet addresses: their layout, their text and the grammar of that text. A
version 6 address is printed in lower case with its longest run of two or more
zero groups as `::`, the leftmost of equal runs, and with a dotted tail when it
maps a version 4 address. -/
namespace BlockSync

inductive Ip where
  | v4 (word : BitVec 32)
  | v6 (word : BitVec 128)
  deriving DecidableEq, Repr

/-- A version 6 address may carry the number of the zone it is valid in. -/
inductive SocketAddress where
  | v4 (ip : BitVec 32) (port : UInt16)
  | v6 (ip : BitVec 128) (port : UInt16) (zone : UInt32)
  deriving DecidableEq, Repr

namespace SocketAddress

def new (ip : Ip) (port : UInt16) : SocketAddress :=
  match ip with
  | .v4 word => .v4 word port
  | .v6 word => .v6 word port 0

def ip : SocketAddress → Ip
  | .v4 word _ => .v4 word
  | .v6 word _ _ => .v6 word

def port : SocketAddress → UInt16
  | .v4 _ port => port
  | .v6 _ port _ => port

end SocketAddress

namespace Layout

def octets (width : Nat) : Layout (BitVec (8 * width)) :=
  (raw width).convert (fun value => .ok (BitVec.ofNat (8 * width) (Bytes.ofBigEndian value)))
    fun w => Bytes.bigEndian width w.toNat

def ip : Layout Ip :=
  tagged (fun | .v4 _ => 0 | .v6 _ => 1)
    (fun | .v4 w => (octets 4).write w | .v6 w => (octets 16).write w)
    fun tag rest =>
      if tag = 0 then ((octets 4).read rest).map fun (w, rest) => (.v4 w, rest)
      else if tag = 1 then ((octets 16).read rest).map fun (w, rest) => (.v6 w, rest)
      else .error .rejected

/-- The zone is not written. -/
def socketAddress : Layout SocketAddress :=
  tagged (fun | .v4 .. => 0 | .v6 .. => 1)
    (fun
      | .v4 w port => ((octets 4).pair u16).write (w, port)
      | .v6 w port _ => ((octets 16).pair u16).write (w, port))
    fun tag rest =>
      if tag = 0 then
        (((octets 4).pair u16).read rest).map fun ((w, port), rest) => (.v4 w port, rest)
      else if tag = 1 then
        (((octets 16).pair u16).read rest).map fun ((w, port), rest) => (.v6 w port 0, rest)
      else .error .rejected

end Layout

namespace Ip

def octets (w : BitVec 32) : List Nat :=
  (Bytes.bigEndian 4 w.toNat).map UInt8.toNat

def textV4 (w : BitVec 32) : String :=
  ".".intercalate ((octets w).map Nat.repr)

def groups (w : BitVec 128) : List Nat :=
  (List.range 8).map fun i => (w.toNat >>> (16 * (7 - i))) % 65536

def zeroRun (l : List Nat) : Nat :=
  (l.takeWhile (· = 0)).length

/-- Start and length of the first longest run of zeros. -/
def longestZeroRun (l : List Nat) : Nat × Nat :=
  (List.range l.length).foldl
    (fun best start =>
      let run := zeroRun (l.drop start)
      if run > best.2 then (start, run) else best)
    (0, 0)

def groupsText (l : List Nat) : String :=
  ":".intercalate (l.map fun g => String.ofList (Nat.toDigits 16 g))

def textV6 (w : BitVec 128) : String :=
  if w.toNat >>> 32 = 0xffff then
    "::ffff:" ++ textV4 (BitVec.ofNat 32 w.toNat)
  else
    let l := groups w
    let (start, run) := longestZeroRun l
    if run > 1 then groupsText (l.take start) ++ "::" ++ groupsText (l.drop (start + run))
    else groupsText l

def text : Ip → String
  | .v4 w => textV4 w
  | .v6 w => textV6 w

end Ip

def SocketAddress.text : SocketAddress → String
  | .v4 w port => Ip.textV4 w ++ ":" ++ port.toNat.repr
  | .v6 w port zone =>
    let zoneText := if zone = 0 then "" else "%" ++ zone.toNat.repr
    "[" ++ Ip.textV6 w ++ zoneText ++ "]:" ++ port.toNat.repr

namespace Address

abbrev Reader (α : Type) := List Char → Option (α × List Char)

def digitValue (radix : Nat) (c : Char) : Option Nat :=
  let n :=
    if c.isDigit then c.toNat - 48
    else if 'a' ≤ c ∧ c ≤ 'z' then c.toNat - 87
    else if 'A' ≤ c ∧ c ≤ 'Z' then c.toNat - 55
    else radix
  if n < radix then some n else none

/-- A number of at most `digits` digits that is below `bound`. -/
def number (radix digits bound : Nat) (leadingZeros : Bool) : Reader Nat := fun input =>
  let taken := input.takeWhile fun c => (digitValue radix c).isSome
  let value := taken.foldl (fun n c => radix * n + (digitValue radix c).getD 0) 0
  if taken.isEmpty ∨ taken.length > digits ∨ value ≥ bound then none
  else if !leadingZeros ∧ taken.length > 1 ∧ taken.head? = some '0' then none
  else some (value, input.drop taken.length)

def char (c : Char) : Reader Unit
  | d :: rest => if d = c then some ((), rest) else none
  | [] => none

def octet : Reader Nat := number 10 3 256 false

def v4 : Reader (BitVec 32) := fun input => do
  let (a, rest) ← octet input
  let (_, rest) ← char '.' rest
  let (b, rest) ← octet rest
  let (_, rest) ← char '.' rest
  let (c, rest) ← octet rest
  let (_, rest) ← char '.' rest
  let (d, rest) ← octet rest
  return (BitVec.ofNat 32 (((a * 256 + b) * 256 + c) * 256 + d), rest)

/-- At most `room` groups, colons between them; a dotted address counts for two
and ends them. The flag says whether one was met. -/
def groupRun : Nat → Bool → List Char → List Nat × Bool × List Char
  | 0, _, input => ([], false, input)
  | room + 1, first, input =>
    let start := if first then some input else (char ':' input).map (·.2)
    match start with
    | none => ([], false, input)
    | some rest =>
      match (if room = 0 then none else v4 rest) with
      | some (w, rest) => ([w.toNat / 65536, w.toNat % 65536], true, rest)
      | none =>
        match number 16 4 65536 true rest with
        | none => ([], false, input)
        | some (g, rest) =>
          let (more, dotted, rest) := groupRun room false rest
          (g :: more, dotted, rest)

def ofGroups (l : List Nat) : BitVec 128 :=
  BitVec.ofNat 128 (l.foldl (fun n g => 65536 * n + g) 0)

def v6 : Reader (BitVec 128) := fun input =>
  let (head, dotted, rest) := groupRun 8 true input
  if head.length = 8 then some (ofGroups head, rest)
  else if dotted then none
  else do
    let (_, rest) ← char ':' rest
    let (_, rest) ← char ':' rest
    let (tail, _, rest) := groupRun (7 - head.length) true rest
    let zeros := List.replicate (8 - head.length - tail.length) 0
    return (ofGroups (head ++ zeros ++ tail), rest)

/-- Any number of digits, leading zeros included. -/
def port : Reader UInt16 := fun input => do
  let (_, rest) ← char ':' input
  let (n, rest) ← number 10 rest.length 65536 true rest
  return (UInt16.ofNat n, rest)

def zone : Reader UInt32 := fun input => do
  let (_, rest) ← char '%' input
  let (n, rest) ← number 10 rest.length 4294967296 true rest
  return (UInt32.ofNat n, rest)

def socketV4 : Reader SocketAddress := fun input => do
  let (w, rest) ← v4 input
  let (p, rest) ← port rest
  return (.v4 w p, rest)

def socketV6 : Reader SocketAddress := fun input => do
  let (_, rest) ← char '[' input
  let (w, rest) ← v6 rest
  let (z, rest) := (zone rest).getD (0, rest)
  let (_, rest) ← char ']' rest
  let (p, rest) ← port rest
  return (.v6 w p z, rest)

def whole {α : Type} (reader : Reader α) (text : String) : Option α :=
  match reader text.toList with
  | some (value, []) => some value
  | _ => none

end Address

def Ip.ofText? (text : String) : Option Ip :=
  ((Address.whole Address.v4 text).map Ip.v4).or ((Address.whole Address.v6 text).map Ip.v6)

def SocketAddress.ofText? (text : String) : Option SocketAddress :=
  (Address.whole Address.socketV4 text).or (Address.whole Address.socketV6 text)

end BlockSync
