import BlockSync.Network.Transport

/-! One connection from its first bytes to its last. Opening it takes two steps, the
verdict on the handshake and the activation, between which the table may change.
Afterwards messages about connections are dealt with here and all others go to the
handlers of their route. -/
namespace BlockSync

inductive Disposal where
  | keep
  | close
  | handOver
  deriving DecidableEq, Repr

namespace Transport

/-- The node at the other end of a connection that was dialled. -/
def outboundNode (candidate : Candidate) (revision : String) (now : Instant) (latency : UInt32) :
    Node :=
  { node := candidate.node, address := candidate.address, direction := .outbound, chain := .empty
    latency, listenPort := candidate.address.port, revision, lastSeen := now
    outbox := .new connectionQueue }

def share (t : Transport) (peer : PeerId) : Transport :=
  match Frame.write (Message.resActiveNodes (t.nodes.shareable peer)).envelope with
  | .ok frame => { t with nodes := (t.nodes.enqueue peer frame).2 }
  | .error _ => t

/-- Queues the nodes that a peer told of, unless only boot nodes are wanted. -/
def learn (t : Transport) (nodes : List NodeAddress) : Transport :=
  if t.config.seedsOnly then t
  else
    { t with
      nodes := nodes.foldl
        (fun table n => (NodeTable.addCandidate table ⟨n.node, n.address, false⟩).2) t.nodes }

/-- A message about connections; its action alone counts, whatever its version. -/
def receiveNet (t : Transport) (peer : PeerId) (e : Envelope) : Disposal × Transport :=
  if e.route.action = Message.Kind.reqActiveNodes.route.action then (.keep, t.share peer)
  else if e.route.action = Message.Kind.resActiveNodes.route.action then
    match Message.ofBody .resActiveNodes e.body with
    | .ok (.resActiveNodes nodes) => (.keep, t.learn nodes)
    | _ => (.keep, t.charge peer)
  else if e.route.action = Message.Kind.disconnect.route.action then (.close, t)
  else (.keep, t)

/-- Takes a message from a peer, which is thereby heard of. -/
def receive (t : Transport) (handled : Route → Bool) (peer : PeerId) (now : Instant)
    (e : Envelope) : Disposal × Transport :=
  let t := { t with nodes := t.nodes.touch peer now }
  if e.route.control = Route.net then t.receiveNet peer e
  else if handled e.route then (.handOver, t)
  else (.keep, t)

end Transport

end BlockSync
