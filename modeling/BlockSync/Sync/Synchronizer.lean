import BlockSync.Network.Peer
import BlockSync.Statistics
import BlockSync.Sync.Backlog
import BlockSync.Sync.Config
import BlockSync.Sync.Import
import BlockSync.Sync.NetworkStatus
import BlockSync.Sync.Requests
import BlockSync.Sync.Route
import BlockSync.Sync.Screening
import BlockSync.Wire.Message

/-! The synchronizer brings the blocks of its peers into the chain. It asks peers
that are ahead for headers, screens what comes, asks the sender for the bodies and
hands the assembled blocks to the chain. Requests for bodies wait in one queue, and
batches to import and cycles of header requests in another, so a cycle never
overtakes an import. What it asks of the transport is written down in order. -/
namespace BlockSync

/-- What the synchronizer sees of the transport. -/
structure Surroundings where
  peers : List PeerInfo
  activeCount : Nat
  latency : UInt32
  accepts : PeerId → Bool

namespace Surroundings

def none : Surroundings :=
  ⟨[], 0, 0, fun _ => true⟩

end Surroundings

/-- What the synchronizer asks of the transport. -/
inductive Effect where
  | send (peer : PeerId) (displayId : String) (message : Message)
  | charge (peer : PeerId) (displayId : String)
  | notePeerChain (peer : PeerId) (chain : ChainInfo)
  | publish (chain : ChainInfo)
  deriving DecidableEq, Repr

/-- What a cycle of header requests goes by, as it was when the cycle began. -/
structure Bearings where
  best : UInt64
  total : Difficulty
  now : Instant
  deriving DecidableEq, Repr

namespace Bearings

/-- Adds a peer to those chosen and notes that it is asked, if it is ahead and owes nothing. -/
def pick (b : Bearings) (state : List PeerInfo × Requests) (p : PeerInfo) :
    List PeerInfo × Requests :=
  if p.chain.totalDifficulty > b.total && state.2.mayAsk p.peer b.now b.best then
    (state.1 ++ [p], state.2.noteAsked p.peer b.now)
  else state

/-- The number after the head, or the greatest one if there is none after it. -/
def start (b : Bearings) : UInt64 :=
  .ofNat (min (b.best.toNat + 1) (UInt64.size - 1))

end Bearings

structure BodyJob where
  peer : PeerId
  displayId : String
  hashes : List Hash
  deriving DecidableEq, Repr

inductive ImportJob where
  | batch (displayId : String) (blocks : List Block)
  /-- A cycle of header requests. -/
  | cycle
  deriving DecidableEq, Repr

inductive Turn where
  | bodies
  | imports
  | status
  deriving DecidableEq, Repr

structure Synchronizer where
  config : SyncConfig
  validate : Validator
  network : Surroundings
  intake : Intake
  view : NetworkView
  requests : Requests
  statistics : Statistics
  bodyJobs : Backlog BodyJob
  importJobs : Backlog ImportJob
  cycleQueued : Bool
  /-- Who can run, in the order in which they became able to. -/
  turns : List Turn
  /-- When the peers are asked for their status next, once for each start. -/
  statusTimes : List Instant
  stopped : Bool
  /-- The clock of the periodic tasks. -/
  clock : Instant
  /-- The clock of requests and answers. -/
  now : Instant
  effects : List Effect

namespace Synchronizer

def importedCapacity : Nat := 4096

def bodyQueue : Nat := 1024

def importQueue : Nat := 100

def new (config : SyncConfig) (validate : Validator) (chain : Chain) (started : Instant) :
    Synchronizer :=
  { config, validate, network := .none
    intake := ⟨chain, .new importedCapacity, .new⟩
    view := .new NetworkView.defaultWindow
    requests := .new config.maxActivePeers
    statistics := .new config.maxActivePeers started
    bodyJobs := .new bodyQueue, importJobs := .new importQueue, cycleQueued := false, turns := []
    statusTimes := [], stopped := false, clock := 0, now := started, effects := [] }

def chain (s : Synchronizer) : Chain :=
  s.intake.chain

def metrics (s : Synchronizer) : Metrics :=
  s.intake.metrics

def isImported (s : Synchronizer) (hash : Hash) : Bool :=
  s.intake.imported.contains hash

def isWaiting (s : Synchronizer) (peer : PeerId) : Bool :=
  s.requests.isWaiting peer s.chain.bestNumber

def setChain (s : Synchronizer) (chain : Chain) : Synchronizer :=
  { s with intake := { s.intake with chain } }

def setMetrics (s : Synchronizer) (f : Metrics → Metrics) : Synchronizer :=
  { s with intake := { s.intake with metrics := f s.intake.metrics } }

def emit (s : Synchronizer) (e : Effect) : Synchronizer :=
  { s with effects := s.effects ++ [e] }

def wake (s : Synchronizer) (turn : Turn) : Synchronizer :=
  if s.turns.contains turn then s else { s with turns := s.turns ++ [turn] }

def head (c : Chain) : ChainInfo :=
  ⟨c.bestNumber, c.best, c.total⟩

def send (s : Synchronizer) (peer : PeerId) (displayId : String) (m : Message) :
    Bool × Synchronizer :=
  if s.network.accepts peer then (true, s.emit (.send peer displayId m)) else (false, s)

def recordRequest (s : Synchronizer) (displayId : String) (kind : RequestKind) : Synchronizer :=
  { s with statistics := s.statistics.recordRequest displayId kind s.now }

def recordResponse (s : Synchronizer) (displayId : String) (kind : RequestKind) : Synchronizer :=
  { s with statistics := (s.statistics.recordResponse displayId kind s.now).2 }

def recordBlocks (s : Synchronizer) (displayId : String) (outcome : BlockOutcome) (n : Nat) :
    Synchronizer :=
  { s with statistics := s.statistics.recordBlocks displayId outcome n }

def askForStatus (s : Synchronizer) : Synchronizer :=
  s.network.peers.foldl
    (fun s p => ((s.recordRequest p.displayId .status).send p.peer p.displayId .reqStatus).2) s

/-- Queues a cycle of header requests behind the imports that wait, unless one is
queued already or there is no room. -/
def queueCycle (s : Synchronizer) : Synchronizer :=
  if s.cycleQueued then s
  else
    match s.importJobs.push? .cycle with
    | some importJobs => { s with importJobs, cycleQueued := true }.wake .imports
    | none => s

def noteClaim (s : Synchronizer) (displayId : String) (claim : PeerStatus) : Synchronizer :=
  let s := if claim.totalDifficulty > s.chain.total then s.queueCycle else s
  let (recorded, view) := s.view.offer s.now ⟨displayId, claim⟩
  let s := { s with view }
  if recorded then s.setMetrics fun m => m.setNetworkBest claim.bestNumber else s

/-- How many headers the peers of one cycle are asked for, in turn, so that answers
rarely have the same size. -/
def requestSizes : List UInt32 := [24, 28, 32, 36]

def requestSize (place : Nat) : UInt32 :=
  requestSizes.getD (place % requestSizes.length) 0

def bearings (s : Synchronizer) : Bearings :=
  ⟨s.chain.bestNumber, s.chain.total, s.now⟩

/-- The peers that are ahead and owe nothing, all noted as asked before any of them is. -/
def choosePeers (s : Synchronizer) (b : Bearings) : List PeerInfo × Requests :=
  s.network.peers.foldl b.pick ([], s.requests)

def offerRequest (s : Synchronizer) (p : PeerInfo) (start : UInt64) (take : UInt32) :
    Bool × Synchronizer :=
  (s.recordRequest p.displayId .headers).send p.peer p.displayId (.reqBlocksHeaders start take)

/-- A peer whose request is not sent owes no answer. -/
def askForHeaders (s : Synchronizer) (p : PeerInfo) (start : UInt64) (take : UInt32) :
    Synchronizer :=
  match s.offerRequest p start take with
  | (true, s) => s
  | (false, s) => { s with requests := s.requests.noteAnswered p.peer }

/-- Asks every peer that is ahead and owes nothing for the headers after the head. Nothing comes
between the choice and the requests here. -/
def runCycle (s : Synchronizer) : Synchronizer :=
  let b := s.bearings
  let (chosen, requests) := s.choosePeers b
  chosen.zipIdx.foldl (fun s (p, i) => askForHeaders s p b.start (requestSize i))
    { s with requests }

/-- Asks for the bodies of a batch; if that is not sent the batch is forgotten. -/
def runBodyJob (s : Synchronizer) (job : BodyJob) : Synchronizer :=
  match (s.recordRequest job.displayId .bodies).send job.peer job.displayId (.reqBlocksBodies job.hashes) with
  | (true, s) => s
  | (false, s) => { s with requests := s.requests.clear job.peer }

def storeBatch (s : Synchronizer) (peer : PeerId) (headers : List Header) : Synchronizer :=
  { s with requests := s.requests.store peer headers s.now }

/-- Remembers a batch and asks for its bodies at once. -/
def askForBodies (s : Synchronizer) (peer : PeerId) (displayId : String) (headers : List Header) :
    Synchronizer :=
  (s.storeBatch peer headers).runBodyJob ⟨peer, displayId, headers.map Header.hash⟩

/-- Takes in the headers that a peer sends. Those that are new become the peer's
batch from now on, and the request for their bodies is queued. -/
def takeHeaders (s : Synchronizer) (peer : PeerId) (displayId : String) (headers : List Header) :
    Synchronizer :=
  let s := { s with requests := s.requests.noteAnswered peer }.recordResponse displayId .headers
  if headers.isEmpty then s
  else
    match screen s.validate s.isImported headers with
    | .error rejection =>
      (s.setMetrics fun m => m.noteRejected rejection.reason).emit (.charge peer displayId)
    | .ok [] => s
    | .ok fresh =>
      let s := s.storeBatch peer fresh
      match s.bodyJobs.push? ⟨peer, displayId, fresh.map Header.hash⟩ with
      | some bodyJobs => { s with bodyJobs }.wake .bodies
      | none => { s with requests := s.requests.clear peer }

/-- The blocks of the longest run of pairs, from the first, that fit together. -/
def assemble : List Header → List Bytes → List Block
  | h :: headers, body :: bodies =>
    match Block.assemble? h body with
    | some block => block :: assemble headers bodies
    | none => []
  | _, _ => []

/-- Takes in the bodies that a peer sends. Blocks far above the head are stored at
once; others are given back, to be queued for import. -/
def takeBodies (s : Synchronizer) (peer : PeerId) (displayId : String) (bodies : List Bytes) :
    Option ImportJob × Synchronizer :=
  let s := s.recordResponse displayId .bodies
  if bodies.isEmpty then (none, s)
  else
    let best := s.chain.bestNumber
    let (batch, requests) := s.requests.take peer bodies.length best
    let s := { s with requests }
    match batch with
    | none => (none, s.emit (.charge peer displayId))
    | some headers =>
      match assemble headers bodies with
      | [] => (none, s)
      | first :: more =>
        match BatchRoute.of first.number best with
        | .pending =>
          let (stored, chain) := s.chain.storeRange (first :: more)
          (none, (s.setChain chain).recordBlocks displayId .stored stored)
        | .intake => (some (.batch displayId (first :: more)), s)

/-- Imports a batch, publishes the head and, if the network is still ahead, queues
the next cycle. The clock stands still meanwhile. -/
def importBatch (s : Synchronizer) (displayId : String) (blocks : List Block) :
    ImportSummary × Synchronizer :=
  let (intake, summary) := s.intake.importBlocks blocks
  let s := { s with intake, statistics := s.statistics.addImported summary.imported }
  let s := s.recordBlocks displayId .imported summary.imported
  let s := s.recordBlocks displayId .stored summary.stored
  let s := s.recordBlocks displayId .ignored summary.ignored
  let best := s.chain.bestNumber
  let s := { s with requests := (s.requests.prune best).2 }
  let s := s.setMetrics fun m => (m.noteBatchTime 0.0).setLocalBest best
  let s := s.emit (.publish (head s.chain))
  (summary,
    if summary.imported > 0 ∧ s.view.status.claim.totalDifficulty > s.chain.total then s.queueCycle
    else s)

def runImportJob (s : Synchronizer) : ImportJob → Synchronizer
  | .batch displayId blocks => (s.importBatch displayId blocks).2
  | .cycle => { s with cycleQueued := false }.runCycle

end Synchronizer

end BlockSync
