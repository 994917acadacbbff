import BlockSync.Bytes

/-! Record layouts. A layout writes a value as bytes and reads one from the front
of a byte string, giving what follows. Numbers have a fixed width and the least
byte first, a list or a byte string stands behind its length in eight bytes, and
records are their fields in order, so every layout here is built from `number`,
`bytes` and `list` by `pair` and `convert`. -/
namespace BlockSync

inductive LayoutError where
  | endOfInput
  | invalidText
  | invalidBool
  | invalidTag
  /-- A byte string of the wrong length, or an address of no known family. -/
  | rejected
  deriving DecidableEq, Repr

structure Layout (α : Type) where
  write : α → Bytes
  read : Bytes → Except LayoutError (α × Bytes)

def Bytes.takeExactly (n : Nat) (bytes : Bytes) : Except LayoutError (Bytes × Bytes) :=
  let front := bytes.take n
  if front.length = n then .ok (front, bytes.drop n) else .error .endOfInput

theorem Bytes.takeExactly_append (front rest : Bytes) :
    Bytes.takeExactly front.length (front ++ rest) = .ok (front, rest) := by
  simp [Bytes.takeExactly]

theorem Bytes.eq_append_of_takeExactly {n : Nat} {bytes front rest : Bytes}
    (h : bytes.takeExactly n = .ok (front, rest)) : front.length = n ∧ bytes = front ++ rest := by
  unfold Bytes.takeExactly at h
  dsimp only at h
  split at h
  · rename_i hn
    cases h
    exact ⟨hn, (List.take_append_drop n bytes).symm⟩
  · cases h

namespace Layout

variable {α β : Type}

/-- Reads a whole value and ignores what follows it. -/
def decode (l : Layout α) (bytes : Bytes) : Except LayoutError α :=
  (l.read bytes).map (·.1)

def empty (value : α) : Layout α where
  write _ := []
  read bytes := .ok (value, bytes)

def number (width : Nat) : Layout Nat where
  write := Bytes.littleEndian width
  read bytes := do
    let (front, rest) ← bytes.takeExactly width
    return (Bytes.ofLittleEndian front, rest)

/-- Exactly `width` bytes, without a length. -/
def raw (width : Nat) : Layout Bytes where
  write := id
  read := Bytes.takeExactly width

def convert (l : Layout α) (forth : α → Except LayoutError β) (back : β → α) : Layout β where
  write value := l.write (back value)
  read bytes := do
    let (value, rest) ← l.read bytes
    return (← forth value, rest)

def pair (l : Layout α) (m : Layout β) : Layout (α × β) where
  write value := l.write value.1 ++ m.write value.2
  read bytes := do
    let (a, rest) ← l.read bytes
    let (b, rest) ← m.read rest
    return ((a, b), rest)

/-- A number that says which of several layouts follows. -/
def tagged (tag : α → Nat) (write : α → Bytes)
    (choose : Nat → Bytes → Except LayoutError (α × Bytes)) : Layout α where
  write value := (number 4).write (tag value) ++ write value
  read bytes := do
    let (t, rest) ← (number 4).read bytes
    choose t rest

def readMany (l : Layout α) : Nat → List α → Bytes → Except LayoutError (List α × Bytes)
  | 0, done, rest => .ok (done.reverse, rest)
  | n + 1, done, rest =>
    match l.read rest with
    | .ok (value, rest) => readMany l n (value :: done) rest
    | .error e => .error e

def list (l : Layout α) : Layout (List α) where
  write values := (number 8).write values.length ++ values.flatMap l.write
  read bytes := do
    let (n, rest) ← (number 8).read bytes
    readMany l n [] rest

def bytes : Layout Bytes where
  write value := (number 8).write value.length ++ value
  read input := do
    let (n, rest) ← (number 8).read input
    rest.takeExactly n

def u8 : Layout UInt8 := (number 1).convert (fun n => .ok (UInt8.ofNat n)) UInt8.toNat

def u16 : Layout UInt16 := (number 2).convert (fun n => .ok (UInt16.ofNat n)) UInt16.toNat

def u32 : Layout UInt32 := (number 4).convert (fun n => .ok (UInt32.ofNat n)) UInt32.toNat

def u64 : Layout UInt64 := (number 8).convert (fun n => .ok (UInt64.ofNat n)) UInt64.toNat

def bool : Layout Bool :=
  (number 1).convert
    (fun n => if n = 0 then .ok false else if n = 1 then .ok true else .error .invalidBool)
    Bool.toNat

def text : Layout String :=
  bytes.convert
    (fun value =>
      match String.fromUTF8? ⟨value.toArray⟩ with
      | some s => .ok s
      | none => .error .invalidText)
    fun s => s.toUTF8.toList

/-- A byte string whose length is written although it can only be `width`. -/
def sized (width : Nat) : Layout Bytes :=
  bytes.convert (fun value => if value.length = width then .ok value else .error .rejected) id

/-- A 256-bit number, greatest byte first, as a byte string of length 32. -/
def word : Layout (BitVec 256) :=
  (sized 32).convert (fun value => .ok (BitVec.ofNat 256 (Bytes.ofBigEndian value)))
    fun w => Bytes.bigEndian 32 w.toNat

end Layout

end BlockSync
