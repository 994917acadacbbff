import BlockSync.Network.Peer
import BlockSync.Time

/-! A node that completed the handshake, with the frames that wait to be written to
it, and a candidate that is still to be dialled. -/
namespace BlockSync

/-- Frames on their way to one connection. They never wait for room: a frame that
does not fit is dropped, and so is every frame once the reading end is gone. -/
structure Outbox where
  capacity : Nat
  frames : List Bytes
  severed : Bool
  deriving DecidableEq, Repr

namespace Outbox

def new (capacity : Nat) : Outbox :=
  ⟨capacity, [], false⟩

def push? (o : Outbox) (frame : Bytes) : Option Outbox :=
  if !o.severed && o.frames.length < o.capacity then some { o with frames := o.frames ++ [frame] }
  else none

end Outbox

structure Node extends PeerInfo where
  /-- The port on which the peer listens, as it announced. -/
  listenPort : UInt16
  revision : String
  lastSeen : Instant
  outbox : Outbox
  deriving Repr

namespace Node

def listenAddress (n : Node) : SocketAddress :=
  .new n.address.ip n.listenPort

/-- Queues a frame, and says whether it was taken. -/
def enqueue (n : Node) (frame : Bytes) : Bool × Node :=
  match n.outbox.push? frame with
  | some outbox => (true, { n with outbox })
  | none => (false, n)

def drain (n : Node) : List Bytes × Node :=
  (n.outbox.frames, { n with outbox := { n.outbox with frames := [] } })

def sever (n : Node) : Node :=
  { n with outbox := { n.outbox with severed := true } }

end Node

structure Candidate where
  node : NodeId
  address : SocketAddress
  seed : Bool
  deriving DecidableEq, Repr

end BlockSync
