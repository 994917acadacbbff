import BlockSync.Address
import BlockSync.Status

/-! A connected peer as the transport describes it to the rest of the node. -/
namespace BlockSync

inductive Direction where
  | inbound
  | outbound
  deriving DecidableEq, Repr

def Direction.text : Direction → String
  | inbound => "inbound"
  | outbound => "outbound"

structure PeerInfo where
  node : NodeId
  address : SocketAddress
  direction : Direction
  /-- The head of the peer's chain, as it last told. -/
  chain : ChainInfo
  /-- In milliseconds; zero if it was never measured. -/
  latency : UInt32
  deriving DecidableEq, Repr

namespace PeerInfo

def peer (p : PeerInfo) : PeerId :=
  p.node.peerId

def displayId (p : PeerInfo) : String :=
  p.node.displayId

end PeerInfo

end BlockSync
