import BlockSync.Sync.Schedule

/-! What the synchronizer does with the six messages that exchange blocks. Requests
are answered from the chain, never with more than a fixed number of headers or
bodies; answers are taken in. A body that cannot be read is charged to its sender. -/
namespace BlockSync.Synchronizer

def apiVersion : UInt8 := 1

/-- How many headers or bodies are served at once. -/
def maxServed : Nat := 64

def ownStatus (s : Synchronizer) : PeerStatus :=
  { bestNumber := s.chain.bestNumber, bestHash := s.chain.best
    totalDifficulty := s.chain.total, genesisHash := s.chain.genesis, apiVersion
    peerCount := UInt16.ofNat (min s.network.activeCount 65535), pendingTxCount := 0
    latency := s.network.latency }

def headersFrom (c : Chain) : Nat → UInt64 → List Header
  | 0, _ => []
  | count + 1, number =>
    match c.blockByNumber? number with
    | some block => block.header :: headersFrom c count (number + 1)
    | none => []

/-- The numbers end below the greatest one. -/
def servedHeaders (c : Chain) (start : UInt64) (take : UInt32) : List Header :=
  headersFrom c (min (min take.toNat maxServed) (UInt64.size - 1 - start.toNat)) start

/-- The encoded bodies of blocks that are in the chain, up to the first that is not. -/
def bodiesOf (c : Chain) : List Hash → List Bytes
  | [] => []
  | hash :: rest =>
    match c.blockByHash? hash with
    | some block => block.body.encode :: bodiesOf c rest
    | none => []

def servedBodies (c : Chain) (hashes : List Hash) : List Bytes :=
  bodiesOf c (hashes.take maxServed)

def reply (s : Synchronizer) (peer : PeerId) (displayId : String) (m : Message) : Synchronizer :=
  (s.send peer displayId m).2

/-- A peer on another chain is charged, and nothing else is believed of it. -/
def takeStatus (s : Synchronizer) (peer : PeerId) (displayId : String) (status : PeerStatus) :
    Synchronizer :=
  let s := s.recordResponse displayId .status
  if status.genesisHash ≠ s.chain.genesis then s.emit (.charge peer displayId)
  else (s.emit (.notePeerChain peer status.chain)).noteClaim displayId status

def serveBodies (s : Synchronizer) (peer : PeerId) (displayId : String) (hashes : List Hash) :
    Synchronizer :=
  let bodies := servedBodies s.chain hashes
  { s with statistics := s.statistics.recordServed displayId bodies.length }.reply peer displayId
    (.resBlocksBodies bodies)

def handle (s : Synchronizer) (peer : PeerId) (displayId : String) : Message → Synchronizer
  | .reqStatus => s.reply peer displayId (.resStatus s.ownStatus)
  | .resStatus status => s.takeStatus peer displayId status
  | .reqBlocksHeaders start take => s.reply peer displayId (.resBlocksHeaders (servedHeaders s.chain start take))
  | .resBlocksHeaders headers => s.takeHeaders peer displayId headers
  | .reqBlocksBodies hashes => s.serveBodies peer displayId hashes
  | .resBlocksBodies bodies => s.deliverBodies peer displayId bodies
  | _ => s

def handledKinds : List Message.Kind :=
  [.reqStatus, .resStatus, .reqBlocksHeaders, .resBlocksHeaders, .reqBlocksBodies, .resBlocksBodies]

def routes : List Route :=
  handledKinds.map Message.Kind.route

/-- Takes a message whose route is handled here. -/
def receive (s : Synchronizer) (peer : PeerId) (displayId : String) (e : Envelope) :
    Option Synchronizer :=
  match handledKinds.find? fun k => k.route = e.route with
  | none => none
  | some kind =>
    match Message.ofBody kind e.body with
    | .ok m => some (s.handle peer displayId m)
    | .error _ => some (s.emit (.charge peer displayId))

end BlockSync.Synchronizer
