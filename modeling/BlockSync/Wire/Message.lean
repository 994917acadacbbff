import BlockSync.Address
import BlockSync.Status
import BlockSync.Wire.Route

/-! The eleven messages: five that manage connections (version 0) and six that
exchange blocks (version 1). An envelope is a route with an encoded body; a body
is read by the kind its route names, and bytes after the value are ignored. -/
namespace BlockSync

structure Envelope where
  route : Route
  body : Bytes
  deriving DecidableEq, Repr

structure HandshakeRequest where
  node : NodeId
  chainId : UInt32
  ip : Ip
  port : UInt16
  revision : String
  versions : List UInt16
  deriving DecidableEq, Repr

structure HandshakeReply where
  success : Bool
  revision : String
  deriving DecidableEq, Repr

structure NodeAddress where
  node : NodeId
  address : SocketAddress
  deriving DecidableEq, Repr

inductive Message where
  | reqHandshake (request : HandshakeRequest)
  | resHandshake (reply : HandshakeReply)
  | reqActiveNodes
  | resActiveNodes (nodes : List NodeAddress)
  | disconnect
  | reqStatus
  | resStatus (status : PeerStatus)
  | reqBlocksHeaders (start : UInt64) (take : UInt32)
  | resBlocksHeaders (headers : List Header)
  | reqBlocksBodies (hashes : List Hash)
  | resBlocksBodies (bodies : List Bytes)
  deriving DecidableEq, Repr

namespace Layout

def handshakeRequest : Layout HandshakeRequest :=
  (nodeId.pair (u32.pair (ip.pair (u16.pair (text.pair (list u16)))))).convert
    (fun (node, chain, ip, port, revision, versions) =>
      .ok ⟨node, chain, ip, port, revision, versions⟩)
    fun r => (r.node, r.chainId, r.ip, r.port, r.revision, r.versions)

def handshakeReply : Layout HandshakeReply :=
  (bool.pair text).convert (fun (success, revision) => .ok ⟨success, revision⟩)
    fun r => (r.success, r.revision)

def nodeAddress : Layout NodeAddress :=
  (nodeId.pair socketAddress).convert (fun (node, address) => .ok ⟨node, address⟩)
    fun n => (n.node, n.address)

end Layout

inductive Message.Kind where
  | reqHandshake
  | resHandshake
  | reqActiveNodes
  | resActiveNodes
  | disconnect
  | reqStatus
  | resStatus
  | reqBlocksHeaders
  | resBlocksHeaders
  | reqBlocksBodies
  | resBlocksBodies
  deriving DecidableEq, Repr

namespace Message

def Kind.all : List Kind :=
  [.reqHandshake, .resHandshake, .reqActiveNodes, .resActiveNodes, .disconnect,
    .reqStatus, .resStatus, .reqBlocksHeaders, .resBlocksHeaders, .reqBlocksBodies, .resBlocksBodies]

def Kind.route : Kind → Route
  | .reqHandshake => ⟨0, Route.net, 0⟩
  | .resHandshake => ⟨0, Route.net, 1⟩
  | .reqActiveNodes => ⟨0, Route.net, 2⟩
  | .resActiveNodes => ⟨0, Route.net, 3⟩
  | .disconnect => ⟨0, Route.net, 4⟩
  | .reqStatus => ⟨1, Route.sync, 0⟩
  | .resStatus => ⟨1, Route.sync, 1⟩
  | .reqBlocksHeaders => ⟨1, Route.sync, 2⟩
  | .resBlocksHeaders => ⟨1, Route.sync, 3⟩
  | .reqBlocksBodies => ⟨1, Route.sync, 4⟩
  | .resBlocksBodies => ⟨1, Route.sync, 5⟩

def Kind.ofRoute? (r : Route) : Option Kind :=
  Kind.all.find? fun k => k.route = r

def kind : Message → Kind
  | reqHandshake _ => .reqHandshake
  | resHandshake _ => .resHandshake
  | reqActiveNodes => .reqActiveNodes
  | resActiveNodes _ => .resActiveNodes
  | disconnect => .disconnect
  | reqStatus => .reqStatus
  | resStatus _ => .resStatus
  | reqBlocksHeaders .. => .reqBlocksHeaders
  | resBlocksHeaders _ => .resBlocksHeaders
  | reqBlocksBodies _ => .reqBlocksBodies
  | resBlocksBodies _ => .resBlocksBodies

def body : Message → Bytes
  | reqHandshake r => Layout.handshakeRequest.write r
  | resHandshake r => Layout.handshakeReply.write r
  | resActiveNodes nodes => (Layout.list Layout.nodeAddress).write nodes
  | resStatus s => Layout.peerStatus.write s
  | reqBlocksHeaders start take => (Layout.u64.pair Layout.u32).write (start, take)
  | resBlocksHeaders headers => (Layout.list Layout.header).write headers
  | reqBlocksBodies hashes => (Layout.list Layout.hash).write hashes
  | resBlocksBodies bodies => (Layout.list Layout.bytes).write bodies
  | reqActiveNodes | disconnect | reqStatus => []

def ofBody (k : Kind) (raw : Bytes) : Except LayoutError Message :=
  match k with
  | .reqHandshake => (Layout.handshakeRequest.decode raw).map reqHandshake
  | .resHandshake => (Layout.handshakeReply.decode raw).map resHandshake
  | .reqActiveNodes => .ok reqActiveNodes
  | .resActiveNodes => ((Layout.list Layout.nodeAddress).decode raw).map resActiveNodes
  | .disconnect => .ok disconnect
  | .reqStatus => .ok reqStatus
  | .resStatus => (Layout.peerStatus.decode raw).map resStatus
  | .reqBlocksHeaders => ((Layout.u64.pair Layout.u32).decode raw).map fun (start, take) => reqBlocksHeaders start take
  | .resBlocksHeaders => ((Layout.list Layout.header).decode raw).map resBlocksHeaders
  | .reqBlocksBodies => ((Layout.list Layout.hash).decode raw).map reqBlocksBodies
  | .resBlocksBodies => ((Layout.list Layout.bytes).decode raw).map resBlocksBodies

def envelope (m : Message) : Envelope :=
  ⟨m.kind.route, m.body⟩

/-- The message of an envelope, if its route is spoken and its body decodes. -/
def ofEnvelope? (e : Envelope) : Option Message :=
  match Kind.ofRoute? e.route with
  | some k => (ofBody k e.body).toOption
  | none => none

end Message

end BlockSync
