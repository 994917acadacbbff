import BlockSync.Metrics
import BlockSync.Network.Handshake

/-! What all connections of a host share: the node table, the errors charged to
peers, the messages that wait to be sent and the head of the host's chain. Nodes
that left are kept until their last frames are written. -/
namespace BlockSync

inductive Destination where
  | peer (id : PeerId)
  /-- Every node that the host dialled. -/
  | outbound
  | everyone
  deriving DecidableEq, Repr

structure Outgoing where
  destination : Destination
  displayId : String
  envelope : Envelope
  deriving DecidableEq, Repr

structure Transport where
  config : NetworkConfig
  self : NodeId
  nodes : NodeTable
  errors : Recency PeerId UInt32
  queue : List Outgoing
  chain : ChainInfo
  metrics : Metrics
  leaving : List Node

namespace Transport

/-- How many peers the errors are counted for. -/
def maxCharged : Nat := 128

/-- How many frames may wait at a connection. -/
def connectionQueue : Nat := 1024

def new (config : NetworkConfig) (self : NodeId) (bootNodes : List BootNode) : Transport :=
  let nodes := NodeTable.new self config.listenSocket config.maxActiveNodes config.maxTempNodes
  { config, self, nodes := nodes.addBootNodes bootNodes, errors := .new maxCharged, queue := []
    chain := .empty, metrics := .new, leaving := [] }

def add (t : Transport) (node : Node) : Except Refusal Transport :=
  (t.nodes.add node).map fun nodes => { t with nodes }

/-- Takes a node into the table once its handshake is done. -/
def activate (t : Transport) (node : Node) : Except Refusal Transport :=
  (t.add node).map fun t => { t with metrics := t.metrics.setPeers t.nodes.active.size }

/-- Closes the connection to a peer, and says whether there was one. -/
def drop (t : Transport) (peer : PeerId) : Bool × Transport :=
  match t.nodes.drop peer with
  | (some node, nodes) =>
    (true, { t with
      nodes, leaving := t.leaving ++ [node], metrics := t.metrics.setPeers nodes.active.size })
  | (none, _) => (false, t)

/-- A node that is told of the disconnection, if there is still room for the notice. -/
def notified (node : Node) : Node :=
  match Frame.write Message.disconnect.envelope with
  | .ok frame => (node.enqueue frame).2
  | .error _ => node

/-- Like `drop`, but tells the peer first. -/
def disconnect (t : Transport) (peer : PeerId) : Bool × Transport :=
  { t with nodes := t.nodes.modify peer notified }.drop peer

def errorCount (t : Transport) (peer : PeerId) : UInt32 :=
  (t.errors.peek? peer).getD 0

/-- Charges an error to a peer. The error after those tolerated bans the peer, and
its count begins anew. -/
def charge (t : Transport) (peer : PeerId) : Transport :=
  let (held, errors) := t.errors.get? peer
  let count := held.getD 0 + 1
  if count > t.config.errorTolerance then
    let t := { t with errors := errors.insert peer 0, nodes := t.nodes.ban peer }
    let t := (t.disconnect peer).2
    { t with metrics := t.metrics.noteBan }
  else { t with errors := errors.insert peer count }

/-- Queues a message to be sent. A message that finds no room for as long as the
offer lasts is dropped. -/
def offer (t : Transport) (out : Outgoing) : Bool × Transport :=
  if t.queue.length < max 1 t.config.sendQueueCapacity then
    (true, { t with queue := t.queue ++ [out] })
  else (false, { t with metrics := t.metrics.noteDropped "send" })

def send (t : Transport) (peer : PeerId) (displayId : String) (e : Envelope) : Bool × Transport :=
  t.offer ⟨.peer peer, displayId, e⟩

def broadcast (t : Transport) (e : Envelope) : Bool × Transport :=
  t.offer ⟨.everyone, "all", e⟩

def sendOutbound (t : Transport) (e : Envelope) : Bool × Transport :=
  t.offer ⟨.outbound, "outbound", e⟩

/-- The active peers that a destination names. -/
def recipients (t : Transport) : Destination → List PeerId
  | .peer id => if t.nodes.isActive id then [id] else []
  | .outbound => (t.nodes.active.entries.filter fun e => e.2.direction = .outbound).map (·.1)
  | .everyone => t.nodes.active.entries.map (·.1)

/-- Hands the oldest queued message to the connections it is for. -/
def deliverNext (t : Transport) : Transport :=
  match t.queue with
  | [] => t
  | out :: queue =>
    let t := { t with queue }
    match Frame.write out.envelope with
    | .error _ => t
    | .ok frame =>
      let (lost, nodes) := (t.recipients out.destination).foldl
        (fun (lost, nodes) peer =>
          let (taken, nodes) := NodeTable.enqueue nodes peer frame
          (lost || taken = some false, nodes))
        (false, t.nodes)
      { t with nodes, metrics := if lost then t.metrics.noteDropped "connection" else t.metrics }

/-- Tells every node of the end and closes its connection. -/
def close (t : Transport) : Transport :=
  let (nodes, table) := t.nodes.clear
  { t with nodes := table, leaving := t.leaving ++ nodes.map notified }

end Transport

end BlockSync
