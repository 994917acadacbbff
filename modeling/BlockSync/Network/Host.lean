import BlockSync.Network.Connection

/-! A host: its transport, the routes that are handled on it and the handshake that
announces their versions. It starts once and stops once. -/
namespace BlockSync

structure Host where
  transport : Transport
  routes : List Route
  handshake : Option Handshake
  started : Bool
  address : Option SocketAddress
  stopped : Bool

inductive StartError where
  | alreadyStarted
  | handshake (cause : WireError)
  deriving DecidableEq, Repr

def StartError.message : StartError → String
  | alreadyStarted => "p2p service already started"
  | handshake cause => cause.message

namespace Host

def new (transport : Transport) : Host :=
  { transport, routes := [], handshake := none, started := false, address := none, stopped := false }

def isSpoken (r : Route) : Bool :=
  Route.isKnownVersion r.version && Route.isKnownControl r.control

/-- Adds handlers and builds the handshake anew. Routes that no node speaks are
passed over. -/
def register (h : Host) (routes : List Route) : Except WireError Host := do
  let routes := h.routes ++ routes.filter isSpoken
  let handshake ← Handshake.build h.transport.self h.transport.config (routes.map Route.version)
  return { h with routes, handshake := some handshake }

/-- Starts with the address that could be bound; without one the host only dials. A
port that the system chose is announced in place of the configured one. -/
def start (h : Host) (bound : Option SocketAddress) : Except StartError Host := do
  if h.started then throw .alreadyStarted
  let config := h.transport.config
  let build (config : NetworkConfig) : Except StartError Handshake :=
    (Handshake.build h.transport.self config (h.routes.map Route.version)).mapError .handshake
  match bound.filter fun a => a.port ≠ config.port with
  | some address =>
    let nodes := { h.transport.nodes with selfAddress := address }
    return { h with
      transport := { h.transport with nodes }, started := true, address := bound
      handshake := some (← build { config with port := address.port }) }
  | none =>
    return { h with
      started := true, address := bound
      handshake := some (← match h.handshake with | some known => pure known | none => build config) }

def maxDials : Nat := 8

def takeCandidates : Nat → NodeTable → List Candidate × NodeTable
  | 0, nodes => ([], nodes)
  | room + 1, nodes =>
    match (if nodes.isFull then (none, nodes) else nodes.takeCandidate) with
    | (some candidate, nodes) =>
      let (more, nodes) := takeCandidates room nodes
      (candidate :: more, nodes)
    | (none, nodes) => ([], nodes)

/-- The candidates to dial now; when none waits, the boot nodes have another turn. -/
def nextDials (h : Host) : List Candidate × Host :=
  let nodes := h.transport.nodes
  let nodes := if nodes.waiting.isEmpty && !nodes.isFull then nodes.refill else nodes
  let (candidates, nodes) := takeCandidates maxDials nodes
  (candidates, { h with transport := { h.transport with nodes } })

def maxSilence : Duration := .seconds 30

def sweep (h : Host) (now : Instant) : Host :=
  let (stale, nodes) := h.transport.nodes.dropStale now maxSilence
  { h with transport := { h.transport with
      nodes, leaving := h.transport.leaving ++ stale.map Transport.notified } }

/-- Only the first call has an effect. -/
def shutDown (h : Host) : Host :=
  if h.stopped then h else { h with stopped := true, transport := h.transport.close }

end Host

end BlockSync
