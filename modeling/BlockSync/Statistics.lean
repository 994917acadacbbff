import BlockSync.Recency
import BlockSync.Time

/-! What a node counts about its peers, filed under their display ids: requests and
the time until the answer, blocks received and blocks served. Each table forgets
the peers it heard of least recently. -/
namespace BlockSync

inductive RequestKind where
  | status
  | headers
  | bodies
  deriving DecidableEq, Repr

def RequestKind.name : RequestKind → String
  | status => "status"
  | headers => "headers"
  | bodies => "bodies"

def RequestKind.all : List RequestKind := [status, headers, bodies]

structure PerKind (α : Type) where
  status : α
  headers : α
  bodies : α
  deriving DecidableEq, Repr

namespace PerKind

variable {α : Type}

def const (a : α) : PerKind α := ⟨a, a, a⟩

def get (p : PerKind α) : RequestKind → α
  | .status => p.status
  | .headers => p.headers
  | .bodies => p.bodies

def modify (p : PerKind α) (kind : RequestKind) (f : α → α) : PerKind α :=
  match kind with
  | .status => { p with status := f p.status }
  | .headers => { p with headers := f p.headers }
  | .bodies => { p with bodies := f p.bodies }

theorem get_modify (p : PerKind α) (kind other : RequestKind) (f : α → α) :
    (p.modify kind f).get other = if kind = other then f (p.get other) else p.get other := by
  cases kind <;> cases other <;> rfl

def total (p : PerKind Nat) : Nat :=
  p.status + p.headers + p.bodies

end PerKind

inductive BlockOutcome where
  | imported
  | stored
  | ignored
  deriving DecidableEq, Repr

/-- Blocks come in any number, and their counts wrap around at `2 ^ 64`. -/
instance coeNat : Coe Nat UInt64 := ⟨UInt64.ofNat⟩

structure BlockCounts where
  imported : UInt64
  stored : UInt64
  ignored : UInt64
  deriving DecidableEq, Repr

def BlockCounts.zero : BlockCounts := ⟨0, 0, 0⟩

def BlockCounts.add (c : BlockCounts) (outcome : BlockOutcome) (n : UInt64) : BlockCounts :=
  match outcome with
  | .imported => { c with imported := c.imported + n }
  | .stored => { c with stored := c.stored + n }
  | .ignored => { c with ignored := c.ignored + n }

structure ResponseTimes where
  count : Nat
  total : Duration
  deriving DecidableEq, Repr

namespace ResponseTimes

def zero : ResponseTimes := ⟨0, 0⟩

def add (a b : ResponseTimes) : ResponseTimes :=
  ⟨a.count + b.count, a.total + b.total⟩

/-- A count of more than 32 bits is divided by as the machine's nearest number. -/
def average? (t : ResponseTimes) : Option Duration :=
  if t.count = 0 then none
  else if t.count < UInt32.size then some (t.total / t.count)
  else some (.ofSeconds (Duration.inSeconds t.total / Float.ofNat t.count))

end ResponseTimes

structure Statistics where
  started : Instant
  imported : UInt64
  requests : Recency String (PerKind Nat)
  blocks : Recency String BlockCounts
  served : Recency String UInt64
  /-- When the last unanswered request of a kind was sent. -/
  sentAt : Recency (String × RequestKind) Instant
  responses : Recency String (PerKind ResponseTimes)

namespace Statistics

def new (capacity : Nat) (started : Instant) : Statistics :=
  { started, imported := 0, requests := .new capacity, blocks := .new capacity
    served := .new capacity, sentAt := .new (3 * capacity), responses := .new capacity }

def addImported (s : Statistics) (n : UInt64) : Statistics :=
  { s with imported := s.imported + n }

def importRate (s : Statistics) (now : Instant) : Float :=
  let elapsed := now.since s.started
  if elapsed = 0 then 0.0 else Float.ofNat s.imported.toNat / Duration.inSeconds elapsed

def recordRequest (s : Statistics) (peer : String) (kind : RequestKind) (now : Instant) : Statistics :=
  { s with
    requests := s.requests.upsert peer (.const 0) (·.modify kind (· + 1))
    sentAt := s.sentAt.insert (peer, kind) now }

/-- The answer to the last request of a kind; gives how long it took. -/
def recordResponse (s : Statistics) (peer : String) (kind : RequestKind) (now : Instant) :
    Option Duration × Statistics :=
  match s.sentAt.erase (peer, kind) with
  | (none, _) => (none, s)
  | (some sent, sentAt) =>
    let elapsed := now.since sent
    (some elapsed,
      { s with
        sentAt
        responses := s.responses.upsert peer (.const .zero) (·.modify kind (·.add ⟨1, elapsed⟩)) })

def recordBlocks (s : Statistics) (peer : String) (outcome : BlockOutcome) (n : UInt64) :
    Statistics :=
  if n = 0 then s
  else { s with blocks := s.blocks.upsert peer .zero (·.add outcome n) }

def recordServed (s : Statistics) (peer : String) (n : UInt64) : Statistics :=
  if n = 0 then s
  else { s with served := s.served.upsert peer 0 (· + n) }

def requestsOf? (s : Statistics) (peer : String) : Option (PerKind Nat) :=
  s.requests.peek? peer

def blocksOf? (s : Statistics) (peer : String) : Option BlockCounts :=
  s.blocks.peek? peer

def servedTo (s : Statistics) (peer : String) : UInt64 :=
  (s.served.peek? peer).getD 0

end Statistics

end BlockSync
