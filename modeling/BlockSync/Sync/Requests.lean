import BlockSync.Block
import BlockSync.Recency
import BlockSync.Time

/-! What a node waits for from each peer: the answer to a header request, and the
bodies of the last batch of headers that came. Bodies carry no reference to their
request, so they are matched by peer and by number. A batch that starts too far
below the local head is expired, and a peer that owes an answer is not asked. -/
namespace BlockSync

/-- Headers whose bodies were asked for, and since when. -/
structure Batch where
  headers : List Header
  since : Instant
  deriving DecidableEq, Repr

namespace Batch

def maxBehind : Nat := 200

def isExpired (b : Batch) (localBest : UInt64) : Bool :=
  match b.headers with
  | [] => true
  | first :: _ => first.number.toNat + maxBehind < localBest.toNat

end Batch

structure Requests where
  batches : Recency PeerId Batch
  /-- When the peer was asked for headers that have not come. -/
  asked : Recency PeerId Instant

namespace Requests

def timeout : Duration := .seconds 10

def new (capacity : Nat) : Requests :=
  ⟨.new capacity, .new capacity⟩

/-- Takes the place of any earlier batch of the peer. Nothing is kept of no headers. -/
def store (r : Requests) (peer : PeerId) (headers : List Header) (now : Instant) : Requests :=
  if headers.isEmpty then r else { r with batches := r.batches.insert peer ⟨headers, now⟩ }

def clear (r : Requests) (peer : PeerId) : Requests :=
  { r with batches := (r.batches.erase peer).2 }

/-- Takes the peer's batch if it has just that many headers; an expired batch is dropped. -/
def take (r : Requests) (peer : PeerId) (count : Nat) (localBest : UInt64) :
    Option (List Header) × Requests :=
  match r.batches.peek? peer with
  | none => (none, r)
  | some batch =>
    if batch.isExpired localBest then (none, r.clear peer)
    else if batch.headers.length ≠ count then (none, r)
    else (some batch.headers, r.clear peer)

def isWaiting (r : Requests) (peer : PeerId) (localBest : UInt64) : Bool :=
  (r.batches.peek? peer).any fun batch => !batch.isExpired localBest

def prune (r : Requests) (localBest : UInt64) : Nat × Requests :=
  let kept := r.batches.retain fun _ batch => !batch.isExpired localBest
  (r.batches.size - kept.size, { r with batches := kept })

def noteAsked (r : Requests) (peer : PeerId) (now : Instant) : Requests :=
  { r with asked := r.asked.insert peer now }

def noteAnswered (r : Requests) (peer : PeerId) : Requests :=
  { r with asked := (r.asked.erase peer).2 }

/-- Whether the peer may be asked for headers: it owes no answer younger than the
timeout, and no bodies of an unexpired batch younger than it. -/
def mayAsk (r : Requests) (peer : PeerId) (now : Instant) (localBest : UInt64) : Bool :=
  let owesHeaders := (r.asked.peek? peer).any fun sent => now.since sent < timeout
  let owesBodies := (r.batches.peek? peer).any fun batch =>
    now.since batch.since < timeout && !batch.isExpired localBest
  !owesHeaders && !owesBodies

def size (r : Requests) : Nat :=
  r.batches.size

end Requests

end BlockSync
