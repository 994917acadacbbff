/-! A bounded queue of jobs, first in, first out, that can be closed. -/
namespace BlockSync

structure Backlog (α : Type) where
  capacity : Nat
  jobs : List α
  accepting : Bool

namespace Backlog

variable {α : Type}

def new (capacity : Nat) : Backlog α :=
  ⟨capacity, [], true⟩

def isFull (b : Backlog α) : Bool :=
  b.jobs.length ≥ b.capacity

/-- Nothing is taken in when the queue is full or closed. -/
def push? (b : Backlog α) (job : α) : Option (Backlog α) :=
  if b.accepting && !b.isFull then some { b with jobs := b.jobs ++ [job] } else none

def next? (b : Backlog α) : Option (α × Backlog α) :=
  match b.jobs with
  | [] => none
  | job :: rest => some (job, { b with jobs := rest })

def close (b : Backlog α) : Backlog α :=
  { b with accepting := false }

end Backlog

end BlockSync
