/-! A map of bounded size that forgets the least recently used key. The entries
are kept from most to least recent; reading or writing a key moves it to the front,
looking at it does not. A capacity of zero counts as one. -/
namespace BlockSync

structure Recency (κ α : Type) where
  capacity : Nat
  entries : List (κ × α)
  deriving Repr

namespace Recency

variable {κ α : Type} [DecidableEq κ]

def new (capacity : Nat) : Recency κ α :=
  ⟨max 1 capacity, []⟩

def size (c : Recency κ α) : Nat :=
  c.entries.length

def peek? (c : Recency κ α) (key : κ) : Option α :=
  (c.entries.find? fun e => e.1 = key).map (·.2)

def contains (c : Recency κ α) (key : κ) : Bool :=
  c.entries.any fun e => e.1 = key

def others (c : Recency κ α) (key : κ) : List (κ × α) :=
  c.entries.filter fun e => e.1 ≠ key

/-- A use of the key: its entry moves to the front. -/
def get? (c : Recency κ α) (key : κ) : Option α × Recency κ α :=
  match c.peek? key with
  | some value => (some value, { c with entries := (key, value) :: c.others key })
  | none => (none, c)

/-- Inserts or replaces, and gives the entry that had to leave. -/
def put (c : Recency κ α) (key : κ) (value : α) : Option (κ × α) × Recency κ α :=
  if c.contains key then (none, { c with entries := (key, value) :: c.others key })
  else if c.size < c.capacity then (none, { c with entries := (key, value) :: c.entries })
  else (c.entries.getLast?, { c with entries := (key, value) :: c.entries.dropLast })

def insert (c : Recency κ α) (key : κ) (value : α) : Recency κ α :=
  (c.put key value).2

def modify (c : Recency κ α) (key : κ) (f : α → α) : Recency κ α :=
  match c.peek? key with
  | some value => { c with entries := (key, f value) :: c.others key }
  | none => c

/-- Changes the value of a key, or that of `default` if the key is absent. -/
def upsert (c : Recency κ α) (key : κ) (default : α) (f : α → α) : Recency κ α :=
  c.insert key (f ((c.peek? key).getD default))

def erase (c : Recency κ α) (key : κ) : Option α × Recency κ α :=
  (c.peek? key, { c with entries := c.others key })

def retain (c : Recency κ α) (keep : κ → α → Bool) : Recency κ α :=
  { c with entries := c.entries.filter fun e => keep e.1 e.2 }

def clear (c : Recency κ α) : Recency κ α :=
  { c with entries := [] }

end Recency

end BlockSync
