import BlockSync.Time
import BlockSync.Work.Crew

/-! A crew of workers on a clock that moves only when nothing can run. An idle worker goes on
taking jobs while it is first in line, until one waits. Workers that can run do so in the order
in which they were woken. -/
namespace BlockSync

/-- What a job does: it waits for a gate, sleeps and then fails or ends. -/
structure Job where
  id : String
  gate : Option String
  sleep : Option Duration
  fails : Bool
  deriving DecidableEq, Repr

/-- What the job of a worker waits for. -/
inductive Pause where
  | atGate (gate : String)
  | asleep (wake : Instant)
  deriving DecidableEq, Repr

def Pause.time? : Pause → Option Instant
  | .asleep time => some time
  | .atGate _ => none

structure Parked where
  worker : Nat
  pause : Pause
  deriving DecidableEq, Repr

structure Pool extends Crew Job where
  /-- Workers that can run, in the order in which they were woken. -/
  ready : List Nat
  /-- Workers whose jobs wait, in the order in which they began to. -/
  parked : List Parked
  opened : List String
  now : Instant
  log : List String

namespace Pool

def new (workers capacity : Nat) : Pool :=
  { Crew.new workers capacity with
    ready := List.range (max 1 workers), parked := [], opened := [], now := 0, log := [] }

def note (p : Pool) (line : String) : Pool :=
  { p with log := p.log ++ [line] }

def wake (p : Pool) (worker : Nat) : Pool :=
  if p.ready.contains worker then p else { p with ready := p.ready ++ [worker] }

def wakeFirst (p : Pool) : Pool :=
  match p.line with
  | [] => p
  | first :: _ => p.wake first

def park (p : Pool) (worker : Nat) (pause : Pause) : Pool :=
  { p with parked := p.parked ++ [⟨worker, pause⟩] }

inductive Progress where
  | waits
  | fails
  | ends

def finish (p : Pool) (worker : Nat) (job : Job) : Progress × Pool :=
  if job.fails then (.fails, { p with toCrew := p.retire worker })
  else
    match p.finish? worker with
    | some (job, toCrew) => (.ends, { p with toCrew }.note ("end " ++ job.id))
    | none => (.waits, p)

def goToSleep (p : Pool) (worker : Nat) (job : Job) : Progress × Pool :=
  match job.sleep with
  | some length =>
    if length = 0 then p.finish worker job else (.waits, p.park worker (.asleep (p.now + length)))
  | none => p.finish worker job

def start (p : Pool) (worker : Nat) (job : Job) : Progress × Pool :=
  let p := p.note ("start " ++ job.id)
  match job.gate with
  | some gate =>
    if p.opened.contains gate then p.goToSleep worker job
    else (.waits, p.park worker (.atGate gate))
  | none => p.goToSleep worker job

/-- An idle worker stands in line and takes jobs while it is first. When no more
jobs can come it leaves and the next in line is woken. -/
def takeJobs : Nat → Pool → Nat → Pool
  | 0, p, _ => p
  | fuel + 1, p, worker =>
    let p := { p with toCrew := p.standInLine worker }
    match p.take? worker with
    | some (job, toCrew) =>
      match ({ p with toCrew }.wakeFirst).start worker job with
      | (.ends, p) => takeJobs fuel p worker
      | (_, p) => p
    | none =>
      match p.leave? worker with
      | some toCrew => { p with toCrew }.wakeFirst
      | none => p

/-- Goes on with what the worker waits for, if that has come. -/
def resume (p : Pool) (worker : Nat) : Pool :=
  let unparked := { p with parked := p.parked.filter (·.worker ≠ worker) }
  let proceed (step : Progress × Pool) : Pool :=
    match step with
    | (.ends, p) => takeJobs (p.queue.length + 1) p worker
    | (_, p) => p
  match p.workers[worker]? with
  | some .idle => takeJobs (p.queue.length + 1) p worker
  | some (.busy job) =>
    match (p.parked.find? (·.worker = worker)).map Parked.pause with
    | some (.atGate gate) =>
      if p.opened.contains gate then proceed (unparked.goToSleep worker job) else p
    | some (.asleep time) => if time ≤ p.now then proceed (unparked.finish worker job) else p
    | none => p
  | _ => p

/-- Each turn uses up a wake-up; a wake-up needs a job taken or a worker gone. -/
def runReady : Nat → Pool → Pool
  | 0, p => p
  | fuel + 1, p =>
    match p.ready with
    | [] => p
    | worker :: rest => runReady fuel ({ p with ready := rest }.resume worker)

def settle (p : Pool) : Pool :=
  runReady (p.ready.length + p.queue.length + p.workers.length) p

/-- Takes a job in at once or not at all. -/
def trySubmit (p : Pool) (job : Job) : Except SubmitError Unit × Pool :=
  match p.toCrew.trySubmit job with
  | (.ok _, toCrew) => (.ok (), { p with toCrew }.wakeFirst)
  | (.error cause, toCrew) => (.error cause, { p with toCrew })

def nextTime? (p : Pool) : Option Instant :=
  (p.parked.filterMap (·.pause.time?)).min?

/-- Moves the clock on and wakes whose time has come, in the order they fell asleep. -/
def moveTo (p : Pool) (time : Instant) : Pool :=
  let due := p.parked.filter (·.pause.time?.any (· ≤ time))
  (due.map Parked.worker).foldl wake { p with now := time }

/-- Runs what can run, and moves the clock from one waking to the next, until
`done` or until only `limit` is left. Says whether it was done. -/
def runUntil (done : Pool → Bool) (limit : Instant) : Nat → Pool → Bool × Pool
  | 0, p => (false, p.moveTo limit)
  | fuel + 1, p =>
    let p := p.settle
    if done p then (true, p)
    else
      match p.nextTime? with
      | some time =>
        if time < limit then runUntil done limit fuel (p.moveTo time) else (false, p.moveTo limit)
      | none => (false, p.moveTo limit)

/-- As far as `limit`, which comes before what else is due at that instant. -/
def waitFor (p : Pool) (done : Pool → Bool) (limit : Instant) : Bool × Pool :=
  if limit ≤ p.now then (false, p)
  else runUntil done limit (p.queue.length + p.workers.length + 1) p

def advance (p : Pool) (length : Duration) : Pool :=
  (p.waitFor (fun _ => false) (p.now + length)).2

inductive Submission where
  | accepted
  | refused (cause : SubmitError)
  | waiting
  deriving DecidableEq, Repr

/-- Takes a job in, waiting for room if there is none; when the time is up the job
is lost. -/
def submit (p : Pool) (job : Job) (patience : Duration) : Submission × Pool :=
  match p.enter job with
  | .error cause => (.refused cause, p)
  | .ok toCrew =>
    let submitter := p.waiting.length
    let p := { p with toCrew }
    let answered (p : Pool) : Bool := p.hasEnded || p.hasRoom
    let p := if answered p then p else (p.waitFor answered (p.now + patience)).2
    match p.letIn? submitter with
    | some (.ok _, toCrew) => (.accepted, { p with toCrew }.wakeFirst)
    | some (.error cause, toCrew) => (.refused cause, { p with toCrew })
    | none => (.waiting, { p with toCrew := p.giveUp submitter })

def openGate (p : Pool) (gate : String) : Pool :=
  let waits := p.parked.filter (·.pause = .atGate gate)
  (waits.map Parked.worker).foldl wake { p with opened := gate :: p.opened }

/-- Takes no more jobs, lets the queue run empty for the given time and then ends
whatever still runs. Gives the time that it took; a second call does nothing. -/
def shutDown (p : Pool) (grace : Duration) : Duration × Pool :=
  if p.accepting then
    let start := p.now
    match ({ p with toCrew := p.close }.wakeFirst).waitFor (·.hasEnded) (start + grace) with
    | (true, p) => (p.now.since start, p)
    | (false, p) =>
      let toCrew := (List.range p.workers.length).foldl Crew.retire p.toCrew
      (p.now.since start, { p with toCrew, ready := [], parked := [] })
  else (0, p)

end Pool

end BlockSync
