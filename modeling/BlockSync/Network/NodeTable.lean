import BlockSync.BootNode
import BlockSync.Network.Node
import BlockSync.Recency
import BlockSync.Table
import BlockSync.Wire.Message

/-! The nodes that a host knows: those it is connected to, filed under their peer
ids, the candidates that wait to be dialled, in order, and the peers it has banned.
A node is refused that is the host itself, is banned, is connected already or finds
no room; the first reason counts. -/
namespace BlockSync

inductive Refusal where
  | selfConnection
  | banned
  | alreadyActive
  | tableFull
  deriving DecidableEq, Repr

def Refusal.message : Refusal → String
  | selfConnection => "connection to self"
  | banned => "peer is banned"
  | alreadyActive => "peer is already active"
  | tableFull => "active node table is full"

structure NodeTable where
  self : NodeId
  selfAddress : SocketAddress
  maxActive : Nat
  maxWaiting : Nat
  bootNodes : List BootNode
  waiting : List Candidate
  active : Table PeerId Node
  banned : Recency PeerId Unit

namespace NodeTable

/-- A ban beyond this number lifts the one that is longest ago. -/
def maxBanned : Nat := 1024

def new (self : NodeId) (address : SocketAddress) (maxActive maxWaiting : Nat) : NodeTable :=
  { self, selfAddress := address, maxActive, maxWaiting, bootNodes := [], waiting := []
    active := .empty, banned := .new maxBanned }

def isActive (t : NodeTable) (peer : PeerId) : Bool :=
  t.active.contains peer

def isBanned (t : NodeTable) (peer : PeerId) : Bool :=
  t.banned.contains peer

def isFull (t : NodeTable) : Bool :=
  t.active.size ≥ t.maxActive

def isSeed (t : NodeTable) (ip : Ip) : Bool :=
  t.bootNodes.any fun b => b.address.ip = ip

def welcomes (t : NodeTable) (c : Candidate) : Bool :=
  let peer := c.node.peerId
  c.node ≠ t.self && c.address ≠ t.selfAddress && !t.isActive peer && !t.isBanned peer &&
    t.waiting.length < t.maxWaiting && t.waiting.all fun w => w.node ≠ c.node

def addCandidate (t : NodeTable) (c : Candidate) : Bool × NodeTable :=
  if t.welcomes c then (true, { t with waiting := t.waiting ++ [c] }) else (false, t)

def takeCandidate (t : NodeTable) : Option Candidate × NodeTable :=
  (t.waiting.head?, { t with waiting := t.waiting.tail })

def refill (t : NodeTable) : NodeTable :=
  t.bootNodes.foldl (fun t b => (t.addCandidate ⟨b.node, b.address, true⟩).2) t

def addBootNodes (t : NodeTable) (nodes : List BootNode) : NodeTable :=
  { t with bootNodes := t.bootNodes ++ nodes }.refill

/-- Whether a node that listens at this address may become active. -/
def check (t : NodeTable) (node : NodeId) (address : SocketAddress) : Except Refusal Unit :=
  let peer := node.peerId
  if node = t.self ∨ address = t.selfAddress then .error .selfConnection
  else if t.isBanned peer then .error .banned
  else if t.isActive peer then .error .alreadyActive
  else if t.isFull then .error .tableFull
  else .ok ()

def add (t : NodeTable) (node : Node) : Except Refusal NodeTable :=
  (t.check node.node node.listenAddress).map fun _ =>
    { t with active := t.active.insert node.peer node }

/-- Takes a node out of the table, for its connection to be closed. -/
def drop (t : NodeTable) (peer : PeerId) : Option Node × NodeTable :=
  (t.active.get? peer, { t with active := t.active.erase peer })

def ban (t : NodeTable) (peer : PeerId) : NodeTable :=
  { t with banned := t.banned.insert peer () }

def modify (t : NodeTable) (peer : PeerId) (f : Node → Node) : NodeTable :=
  { t with active := t.active.modify peer f }

def touch (t : NodeTable) (peer : PeerId) (now : Instant) : NodeTable :=
  t.modify peer fun n => { n with lastSeen := now }

def setChain (t : NodeTable) (peer : PeerId) (chain : ChainInfo) : NodeTable :=
  t.modify peer fun n => { n with chain }

/-- Queues a frame for a node; nothing if the node is not active. -/
def enqueue (t : NodeTable) (peer : PeerId) (frame : Bytes) : Option Bool × NodeTable :=
  match t.active.get? peer with
  | some node =>
    let (taken, node) := node.enqueue frame
    (some taken, t.modify peer fun _ => node)
  | none => (none, t)

def peers (t : NodeTable) : List PeerInfo :=
  (t.active.values.map Node.toPeerInfo).mergeSort fun a b => a.peer.value ≤ b.peer.value

/-- The mean of the measured latencies, rounded down; zero if there is none. -/
def latency (t : NodeTable) : UInt32 :=
  let measured := (t.active.values.map fun n => n.latency.toNat).filter (· > 0)
  UInt32.ofNat (measured.foldl (· + ·) 0 / measured.length)

def shareable (t : NodeTable) (requester : PeerId) : List NodeAddress :=
  (t.active.values.filter fun n => n.peer ≠ requester).map fun n => ⟨n.node, n.listenAddress⟩

/-- Takes out the nodes that were not heard from for longer than `silence`. -/
def dropStale (t : NodeTable) (now : Instant) (silence : Duration) : List Node × NodeTable :=
  let isStale (n : Node) : Bool := now.since n.lastSeen > silence
  (t.active.values.filter isStale,
    { t with active := ⟨t.active.entries.filter fun e => !isStale e.2⟩ })

def clear (t : NodeTable) : List Node × NodeTable :=
  (t.active.values, { t with waiting := [], active := .empty })

end NodeTable

end BlockSync
