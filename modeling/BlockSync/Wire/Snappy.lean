import BlockSync.Layout

/-! The snappy block format: the length of the text as a variable-length number,
then literals and copies from earlier output. The match finder is not trusted:
what it makes is kept only if it reads back as the text, and otherwise the text is
stored as literals. -/
namespace BlockSync.Snappy

inductive Element where
  | literal (bytes : Bytes)
  | copy (offset length : Nat)

/-- Seven bits a byte, the lowest first; the top bit says that more follow. -/
def writeLength : Nat → Nat → Bytes
  | 0, n => [UInt8.ofNat n]
  | more + 1, n =>
    if n < 128 then [UInt8.ofNat n] else UInt8.ofNat (n % 128 + 128) :: writeLength more (n / 128)

def readLength : Nat → Nat → Nat → Bytes → Option (Nat × Bytes)
  | 0, _, _, _ => none
  | _ + 1, _, _, [] => none
  | more + 1, shift, n, b :: rest =>
    let n := n ||| (b.toNat % 128) <<< shift
    if b < 128 then some (n, rest) else readLength more (shift + 7) n rest

/-- The length that a block declares and what follows it. Lengths of more than 32
bits or written in more than five bytes are refused. -/
def header (block : Bytes) : Option (Nat × Bytes) :=
  match readLength 5 0 0 block with
  | some (n, rest) => if n < UInt32.size then some (n, rest) else none
  | none => none

def declaredLength (block : Bytes) : Option Nat :=
  if block.isEmpty then some 0 else (header block).map (·.1)

namespace Element

def writeLiteral (bytes : Bytes) : Bytes :=
  let n := bytes.length - 1
  if n < 60 then UInt8.ofNat (4 * n) :: bytes
  else if n < 256 then 0xf0 :: UInt8.ofNat n :: bytes
  else 0xf4 :: (Bytes.littleEndian 2 n ++ bytes)

def writeFar (offset length : Nat) : Bytes :=
  UInt8.ofNat (4 * (length - 1) + 2) :: Bytes.littleEndian 2 offset

def writeNear (offset length : Nat) : Bytes :=
  if length ≤ 11 ∧ offset < 2048 then
    [UInt8.ofNat (32 * (offset / 256) + 4 * (length - 4) + 1), UInt8.ofNat offset]
  else writeFar offset length

/-- Long copies are cut into pieces of 64, and the last cut leaves at least 4. -/
def writeCopy (offset length : Nat) : Bytes :=
  if length ≥ 68 then writeFar offset 64 ++ writeCopy offset (length - 64)
  else if length > 64 then writeFar offset 60 ++ writeNear offset (length - 60)
  else writeNear offset length
  termination_by length

def write : Element → Bytes
  | literal bytes => writeLiteral bytes
  | copy offset length => writeCopy offset length

/-- The number of bytes in a literal's length, if it is not in the tag, and the
literal itself. A length outside the tag needs four bytes to follow, used or not. -/
def readLiteral (code : Nat) (rest : Bytes) : Option (Element × Bytes) :=
  if code < 60 then
    match rest.takeExactly (code + 1) with
    | .ok (bytes, rest) => some (.literal bytes, rest)
    | .error _ => none
  else
    let front := rest.take 4
    if front.length < 4 then none else
      let width := code - 59
      let length := Bytes.ofLittleEndian (front.take width) + 1
      match Bytes.takeExactly length (rest.drop width) with
      | .ok (bytes, rest) => some (.literal bytes, rest)
      | .error _ => none

def readCopy (width length high : Nat) (rest : Bytes) : Option (Element × Bytes) :=
  match rest.takeExactly width with
  | .ok (front, rest) => some (.copy (high + Bytes.ofLittleEndian front) length, rest)
  | .error _ => none

def read (tag : UInt8) (rest : Bytes) : Option (Element × Bytes) :=
  let code := tag.toNat / 4
  match tag.toNat % 4 with
  | 0 => readLiteral code rest
  | 1 => readCopy 1 (4 + code % 8) (256 * (code / 8)) rest
  | 2 => readCopy 2 (code + 1) 0 rest
  | _ => readCopy 4 (code + 1) 0 rest

end Element

/-- Repeats the byte `offset` back, so that a copy may overlap its own output. -/
def copyBack (offset : Nat) : Nat → Array UInt8 → Array UInt8
  | 0, out => out
  | n + 1, out => copyBack offset n (out.push (out.getD (out.size - offset) 0))

/-- Adds an element to the output, if it stays within `limit` and looks back at
no more than there is. -/
def Element.apply (limit : Nat) (out : Array UInt8) : Element → Option (Array UInt8)
  | .literal bytes =>
    let out := bytes.foldl Array.push out
    if out.size ≤ limit then some out else none
  | .copy offset length =>
    if offset = 0 ∨ offset > out.size ∨ out.size + length > limit then none
    else some (copyBack offset length out)

/-- `fuel` bounds the number of elements, each of which takes at least a byte. -/
def expand (limit : Nat) : Nat → Bytes → Array UInt8 → Option (Array UInt8)
  | _, [], out => some out
  | 0, _ :: _, _ => none
  | fuel + 1, tag :: rest, out =>
    match Element.read tag rest with
    | some (element, rest) =>
      match element.apply limit out with
      | some out => expand limit fuel rest out
      | none => none
    | none => none

def decompress (block : Bytes) : Option Bytes :=
  match header block with
  | none => none
  | some (length, rest) =>
    match expand length rest.length rest #[] with
    | some out => if out.size = length then some out.toList else none
    | none => none

def blockSize : Nat := 65536

/-- The table of positions under hashed four-byte words, while one piece of at
most `blockSize` bytes is searched. -/
structure Finder where
  source : Array UInt8
  shift : UInt32
  /-- Searching stops fifteen bytes before the end. -/
  limit : Nat
  table : Array Nat
  start : Nat
  elements : List Element

namespace Finder

/-- The table has the least power of two of entries that is at least the size of
the piece, but no fewer than 256 and no more than 16384. -/
def tableBits (size : Nat) : Nat :=
  [8, 9, 10, 11, 12, 13].find? (fun bits => size ≤ 1 <<< bits) |>.getD 14

def new (piece : Bytes) : Finder :=
  let source := piece.toArray
  let bits := tableBits source.size
  { source, shift := UInt32.ofNat (32 - bits), limit := source.size - 15,
    table := Array.replicate (1 <<< bits) 0, start := 0, elements := [] }

def byte (f : Finder) (i : Nat) : UInt32 :=
  (f.source.getD i 0).toUInt32

def word (f : Finder) (i : Nat) : UInt32 :=
  f.byte i ||| (f.byte (i + 1) <<< 8) ||| (f.byte (i + 2) <<< 16) ||| (f.byte (i + 3) <<< 24)

def slot (f : Finder) (i : Nat) : Nat :=
  ((f.word i * 0x1e35a7bd) >>> f.shift).toNat

def swap (f : Finder) (slot position : Nat) : Nat × Finder :=
  let old := f.table.getD slot 0
  (old, { f with table := f.table.setIfInBounds slot position })

/-- Looks for a position whose word occurred before, in steps that grow by one
after every thirty-two misses; gives the position and the earlier one. -/
def search : Nat → Finder → Nat → Nat → Nat → Finder × Option (Nat × Nat)
  | 0, f, _, _, _ => (f, none)
  | fuel + 1, f, position, slot, skip =>
    let next := position + skip / 32
    if next > f.limit then (f, none) else
      let (candidate, f) := f.swap slot position
      if f.word position = f.word candidate then (f, some (position, candidate))
      else search fuel f next (f.slot next) (skip + skip / 32)

/-- The first position at or after `i` where the bytes at `i` and `j` differ. -/
def extend (f : Finder) : Nat → Nat → Nat → Nat
  | 0, i, _ => i
  | fuel + 1, i, j =>
    if i < f.source.size ∧ f.byte i = f.byte j then extend f fuel (i + 1) (j + 1) else i

/-- Emits the copies that follow each other at once. Gives the position to search
from, or nothing at the end of the piece. -/
def copies : Nat → Finder → Nat → Nat → Finder × Option Nat
  | 0, f, _, _ => (f, none)
  | fuel + 1, f, position, candidate =>
    let stop := f.extend f.source.size (position + 4) (candidate + 4)
    let f := { f with start := stop, elements := .copy (position - candidate) (stop - position) :: f.elements }
    if stop ≥ f.limit then (f, none) else
      let (_, f) := f.swap (f.slot (stop - 1)) (stop - 1)
      let (candidate, f) := f.swap (f.slot stop) stop
      if f.word stop = f.word candidate then copies fuel f stop candidate
      else (f, some (stop + 1))

def literal (f : Finder) (stop : Nat) : Finder :=
  if f.start < stop then
    { f with start := stop, elements := .literal (f.source.extract f.start stop).toList :: f.elements }
  else f

def run : Nat → Finder → Nat → Finder
  | 0, f, _ => f
  | fuel + 1, f, position =>
    match search f.source.size f position (f.slot position) 32 with
    | (f, none) => f
    | (f, some (position, candidate)) =>
      match copies f.source.size (f.literal position) position candidate with
      | (f, none) => f
      | (f, some next) => run fuel f next

/-- The elements of a piece, in order. Pieces below 17 bytes are not searched. -/
def elementsOf (piece : Bytes) : List Element :=
  let f := new piece
  let f := if f.source.size < 17 then f else run f.source.size f 1
  (f.literal f.source.size).elements.reverse

end Finder

def pieces : Nat → Bytes → List Bytes
  | 0, _ => []
  | _ + 1, [] => []
  | fuel + 1, text => text.take blockSize :: pieces fuel (text.drop blockSize)

def piecesOf (text : Bytes) : List Bytes :=
  pieces (text.length / blockSize + 1) text

def assemble (text : Bytes) (elements : List Element) : Bytes :=
  writeLength 4 text.length ++ elements.flatMap Element.write

def stored (text : Bytes) : Bytes :=
  assemble text ((piecesOf text).map .literal)

def compress (text : Bytes) : Bytes :=
  let block := assemble text ((piecesOf text).flatMap Finder.elementsOf)
  if decompress block = some text then block else stored text

end BlockSync.Snappy
