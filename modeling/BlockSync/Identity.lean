import BlockSync.Bytes.Hex
import BlockSync.Hash.Keccak

/-! Names of things: 256-bit hashes, the 32-byte ids that nodes choose, and the
64-bit peer ids that the transport files nodes under, which are the first eight
bytes of the digest of the node id. -/
namespace BlockSync

structure Hash where
  word : BitVec 256
  deriving DecidableEq, Hashable, Inhabited, Repr

namespace Hash

def zero : Hash := ⟨0⟩

def ofBytes (bytes : Bytes) : Hash :=
  ⟨BitVec.ofNat 256 (Bytes.ofBigEndian bytes)⟩

def toBytes (h : Hash) : Bytes :=
  Bytes.bigEndian 32 h.word.toNat

def keccak (message : Bytes) : Hash :=
  ofBytes (Keccak.digest message)

def text (h : Hash) : String :=
  Hex.encode h.toBytes

def ofText (text : String) : Except HexError Hash :=
  (Hex.decode 32 text).map ofBytes

end Hash

structure NodeId where
  word : BitVec 256
  deriving DecidableEq, Hashable, Inhabited, Repr

namespace NodeId

def ofBytes (bytes : Bytes) : NodeId :=
  ⟨BitVec.ofNat 256 (Bytes.ofBigEndian bytes)⟩

def toBytes (id : NodeId) : Bytes :=
  Bytes.bigEndian 32 id.word.toNat

def text (id : NodeId) : String :=
  Hex.encode id.toBytes

/-- The first six digits, which logs and statistics show. -/
def displayId (id : NodeId) : String :=
  String.ofList (id.text.toList.take 6)

/-- One `0x` in front of the digits is allowed. -/
def ofText (text : String) : Except HexError NodeId :=
  let digits :=
    match text.toList with
    | '0' :: 'x' :: rest => String.ofList rest
    | _ => text
  (Hex.decode 32 digits).map ofBytes

end NodeId

structure PeerId where
  value : UInt64
  deriving DecidableEq, Hashable, Inhabited, Repr

def PeerId.text (id : PeerId) : String :=
  Hex.encode (Bytes.bigEndian 8 id.value.toNat)

def NodeId.peerId (id : NodeId) : PeerId :=
  ⟨UInt64.ofNat (Bytes.ofBigEndian ((Keccak.digest id.toBytes).take 8))⟩

end BlockSync
