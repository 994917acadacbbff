import BlockSync.Wire.Message
import BlockSync.Wire.Snappy

/-! Frames: eight bytes of header (version, control, action, length of the rest,
greatest byte first) and then the compressed body. The same limit holds for the
body and its compressed form on the way out, and for the length field and the
declared length of the body on the way in. -/
namespace BlockSync

inductive WireError where
  | endOfStream
  | frameTooLarge (size : Nat)
  | compression
  | layout (error : LayoutError)
  deriving DecidableEq, Repr

namespace WireError

/-- The stream ended where more bytes were wanted. -/
def isEnd : WireError → Bool
  | endOfStream => true
  | _ => false

def message : WireError → String
  | endOfStream => "i/o: unexpected end of file"
  | frameTooLarge size => "frame body of " ++ size.repr ++ " bytes exceeds the limit"
  | compression => "snappy: malformed block"
  | layout _ => "decode: malformed message"

end WireError

namespace Frame

def maxBody : Nat := 2 * 1024 * 1024

def header (route : Route) (length : Nat) : Bytes :=
  Bytes.bigEndian 2 route.version.toNat ++ route.control :: route.action ::
    Bytes.bigEndian 4 length

def write (e : Envelope) : Except WireError Bytes :=
  if e.body.length > maxBody then .error (.frameTooLarge e.body.length)
  else
    let block := Snappy.compress e.body
    if block.length > maxBody then .error (.frameTooLarge block.length)
    else .ok (header e.route block.length ++ block)

/-- The route and the length of a frame, from the eight bytes of its header. -/
def readHeader (bytes : Bytes) : Route × Nat :=
  let version := Bytes.ofBigEndian (bytes.take 2)
  (⟨UInt16.ofNat version, bytes.getD 2 0, bytes.getD 3 0⟩, Bytes.ofBigEndian ((bytes.drop 4).take 4))

def readBody (block : Bytes) : Except WireError Bytes :=
  match Snappy.declaredLength block with
  | none => .error .compression
  | some length =>
    if length > maxBody then .error (.frameTooLarge length)
    else
      match Snappy.decompress block with
      | some body => .ok body
      | none => .error .compression

def read (stream : Bytes) : Except WireError (Envelope × Bytes) :=
  match stream.takeExactly 8 with
  | .error _ => .error .endOfStream
  | .ok (head, rest) =>
    let (route, length) := readHeader head
    if length > maxBody then .error (.frameTooLarge length)
    else
      match rest.takeExactly length with
      | .error _ => .error .endOfStream
      | .ok (block, rest) =>
        match readBody block with
        | .ok body => .ok (⟨route, body⟩, rest)
        | .error e => .error e

theorem length_lt_of_read {stream rest : Bytes} {e : Envelope} (h : read stream = .ok (e, rest)) :
    rest.length < stream.length := by
  unfold read at h
  split at h
  · cases h
  · rename_i head tail hhead
    obtain ⟨hlen, rfl⟩ := Bytes.eq_append_of_takeExactly hhead
    dsimp only at h
    split at h
    · cases h
    · split at h
      · cases h
      · rename_i block more hblock
        obtain ⟨_, rfl⟩ := Bytes.eq_append_of_takeExactly hblock
        split at h
        · cases h
          simp only [List.length_append]
          omega
        · cases h

/-- All frames of a stream, and the error that ended the reading. -/
def readAll (stream : Bytes) : List Envelope × WireError :=
  match h : read stream with
  | .error e => ([], e)
  | .ok (e, rest) =>
    have := length_lt_of_read h
    let (more, error) := readAll rest
    (e :: more, error)
  termination_by stream.length

end Frame

end BlockSync
