import BlockSync.Network.Config
import BlockSync.Network.NodeTable
import BlockSync.Wire.Frame

/-! The handshake that opens a connection. Its frames are built once and sent to
every peer. The acceptor answers a readable request with yes or no, and any other
stream not at all; the caller wants a yes. -/
namespace BlockSync

structure Handshake where
  self : NodeId
  chainId : UInt32
  revision : String
  versions : List UInt16
  request : Bytes
  acceptance : Bytes
  rejection : Bytes
  deriving DecidableEq, Repr

/-- In increasing order, each once. -/
def ascending (versions : List UInt16) : List UInt16 :=
  ((versions.mergeSort (· ≤ ·)).eraseReps)

inductive Denial where
  | foreignChain (chainId : UInt32)
  | refused (cause : Refusal)
  deriving DecidableEq, Repr

def Denial.message : Denial → String
  | foreignChain chainId => "chain id " ++ chainId.toNat.repr ++ " does not match"
  | refused cause => cause.message

inductive Verdict where
  | unreadable
  | denied (request : HandshakeRequest) (cause : Denial)
  | accepted (request : HandshakeRequest)
  deriving DecidableEq, Repr

namespace Handshake

def build (self : NodeId) (config : NetworkConfig) (versions : List UInt16) :
    Except WireError Handshake := do
  let versions := ascending versions
  let reply (success : Bool) := Message.resHandshake ⟨success, config.revision⟩
  return {
    self, chainId := config.chainId, revision := config.revision, versions
    request := ← Frame.write (Message.reqHandshake
      ⟨self, config.chainId, config.listenAddress, config.port, config.revision, versions⟩).envelope
    acceptance := ← Frame.write (reply true).envelope
    rejection := ← Frame.write (reply false).envelope }

/-- The message in the first frame of a stream, if it is one of this kind. -/
def firstMessage? (kind : Message.Kind) (stream : Bytes) : Option Message :=
  match Frame.read stream with
  | .ok (e, _) => if e.route = kind.route then (Message.ofBody kind e.body).toOption else none
  | .error _ => none

/-- What the acceptor makes of the stream of a peer at `ip`, whose node is checked
against the table as it stands at this moment. -/
def judge (h : Handshake) (nodes : NodeTable) (ip : Ip) (stream : Bytes) : Verdict :=
  match firstMessage? .reqHandshake stream with
  | some (.reqHandshake request) =>
    if request.chainId ≠ h.chainId then .denied request (.foreignChain request.chainId)
    else
      match nodes.check request.node (.new ip request.port) with
      | .ok () => .accepted request
      | .error cause => .denied request (.refused cause)
  | _ => .unreadable

def answer? (h : Handshake) : Verdict → Option Bytes
  | .unreadable => none
  | .denied .. => some h.rejection
  | .accepted _ => some h.acceptance

/-- The revision of a peer whose stream begins with a yes. -/
def consent? (stream : Bytes) : Option String :=
  match firstMessage? .resHandshake stream with
  | some (.resHandshake reply) => if reply.success then some reply.revision else none
  | _ => none

end Handshake

end BlockSync
