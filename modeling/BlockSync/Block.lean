import BlockSync.Hash.Sha256
import BlockSync.Identity

/-! Block headers, bodies and blocks. A header is hashed over a byte string that
holds its fixed-width fields in order and then each byte field behind its length;
the signed hash leaves the signature out. A body's root is the digest of the
digests of its transactions. -/
namespace BlockSync

abbrev Difficulty := BitVec 256

structure Header where
  number : UInt64
  parentHash : Hash
  timestamp : UInt64
  difficulty : Difficulty
  txRoot : Hash
  extraData : Bytes
  publicKey : Bytes
  signature : Bytes
  deriving DecidableEq, Repr

namespace Header

def empty : Header :=
  ⟨0, .zero, 0, 0, .zero, [], [], []⟩

/-- A byte field behind its length in four bytes. -/
def field (bytes : Bytes) : Bytes :=
  Bytes.bigEndian 4 bytes.length ++ bytes

/-- What the signature is made over. -/
def signedEncoding (h : Header) : Bytes :=
  Bytes.bigEndian 8 h.number.toNat ++ h.parentHash.toBytes ++
    Bytes.bigEndian 8 h.timestamp.toNat ++ Bytes.bigEndian 32 h.difficulty.toNat ++
    h.txRoot.toBytes ++ field h.extraData ++ field h.publicKey

def encoding (h : Header) : Bytes :=
  h.signedEncoding ++ field h.signature

def hash (h : Header) : Hash :=
  Hash.keccak h.encoding

def mineHash (h : Header) : Hash :=
  Hash.keccak h.signedEncoding

end Header

structure Body where
  transactions : List Bytes
  deriving DecidableEq, Repr

namespace Body

def root (b : Body) : Hash :=
  .ofBytes (Sha256.digest (b.transactions.flatMap Sha256.digest))

end Body

structure Block where
  header : Header
  body : Body
  deriving DecidableEq, Repr

namespace Block

def number (b : Block) : UInt64 := b.header.number

def hash (b : Block) : Hash := b.header.hash

def parentHash (b : Block) : Hash := b.header.parentHash

end Block

end BlockSync
