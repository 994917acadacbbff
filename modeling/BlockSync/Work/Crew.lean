/-! Workers that share a bounded queue of jobs, and submitters who wait for room in it. Each step
is done without interruption, and steps of different workers and submitters may come in any
order. Idle workers stand in line for the queue: the first in line takes the next job and is out
of the line before it starts on it. -/
namespace BlockSync

inductive SubmitError where
  | queueFull
  | shutDown
  deriving DecidableEq, Repr

def SubmitError.message : SubmitError → String
  | queueFull => "job queue is full"
  | shutDown => "worker pool is shut down"

inductive Worker (α : Type) where
  | idle
  | busy (job : α)
  | ended
  deriving DecidableEq, Repr

namespace Worker

variable {α : Type}

def job? : Worker α → Option α
  | busy job => some job
  | _ => none

def isEnded : Worker α → Bool
  | ended => true
  | _ => false

end Worker

structure Crew (α : Type) where
  capacity : Nat
  workers : List (Worker α)
  queue : List α
  /-- Jobs whose submitters wait for room. -/
  waiting : List α
  /-- Idle workers, the one that takes the next job first. -/
  line : List Nat
  accepting : Bool

namespace Crew

variable {α : Type}

/-- No crew is without a worker or without room for a job. -/
def new (workers capacity : Nat) : Crew α :=
  { capacity := max 1 capacity, workers := List.replicate (max 1 workers) .idle
    queue := [], waiting := [], line := [], accepting := true }

def hasEnded (c : Crew α) : Bool :=
  c.workers.all Worker.isEnded

def hasRoom (c : Crew α) : Bool :=
  c.queue.length < c.capacity

def isClosed (c : Crew α) : Bool :=
  !c.accepting || c.hasEnded

def push (c : Crew α) (job : α) : Crew α :=
  { c with queue := c.queue ++ [job] }

/-- Takes a job in at once or not at all. -/
def trySubmit (c : Crew α) (job : α) : Except SubmitError Unit × Crew α :=
  if c.isClosed then (.error .shutDown, c)
  else if c.hasRoom then (.ok (), c.push job)
  else (.error .queueFull, c)

/-- A submitter begins to wait, unless no more jobs are accepted. -/
def enter (c : Crew α) (job : α) : Except SubmitError (Crew α) :=
  if c.accepting then .ok { c with waiting := c.waiting ++ [job] } else .error .shutDown

def giveUp (c : Crew α) (submitter : Nat) : Crew α :=
  { c with waiting := c.waiting.eraseIdx submitter }

/-- The wait of a submitter ends when there is room, which counts even if no more jobs are
accepted by then, or when no worker is left. -/
def letIn? (c : Crew α) (submitter : Nat) : Option (Except SubmitError Unit × Crew α) :=
  match c.waiting[submitter]? with
  | none => none
  | some job =>
    if c.hasEnded then some (.error .shutDown, c.giveUp submitter)
    else if c.hasRoom then some (.ok (), (c.giveUp submitter).push job)
    else none

def standInLine (c : Crew α) (worker : Nat) : Crew α :=
  match c.workers[worker]? with
  | some .idle => if c.line.contains worker then c else { c with line := c.line ++ [worker] }
  | _ => c

/-- The first in line takes the next job and makes way for the others. -/
def take? (c : Crew α) (worker : Nat) : Option (α × Crew α) :=
  if c.line.head? = some worker then
    match c.queue with
    | [] => none
    | job :: queue =>
      some (job, { c with queue, line := c.line.tail, workers := c.workers.set worker (.busy job) })
  else none

def finish? (c : Crew α) (worker : Nat) : Option (α × Crew α) :=
  match c.workers[worker]? with
  | some (.busy job) => some (job, { c with workers := c.workers.set worker .idle })
  | _ => none

/-- A worker is gone; the queue goes with the last one. -/
def retire (c : Crew α) (worker : Nat) : Crew α :=
  let workers := c.workers.set worker .ended
  { c with
    workers, line := c.line.filter (· ≠ worker)
    queue := if workers.all Worker.isEnded then [] else c.queue }

/-- The first in line leaves when the queue is empty and nobody is left to add to it. -/
def leave? (c : Crew α) (worker : Nat) : Option (Crew α) :=
  if c.line.head? = some worker ∧ c.queue.isEmpty ∧ c.waiting.isEmpty ∧ ¬ c.accepting then
    some (c.retire worker)
  else none

def close (c : Crew α) : Crew α :=
  { c with accepting := false }

end Crew

end BlockSync
