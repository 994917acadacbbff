import BlockSync.Proofs.Sync.Course
import BlockSync.Proofs.Sync.Exchange

/-! Batches of one peer that overlap. A batch is stored when its headers come, but the request for
its bodies goes out later, from one of three workers. A request that is not sent forgets whatever
batch of its peer is stored by then, which need not be its own. So the last batch is awaited
exactly as long as no request has been dropped since it was stored. -/
namespace BlockSync

namespace Synchronizer

/-- The headers of a message that would be stored, if there are any. -/
def novel (s : Synchronizer) (headers : List Header) : List Header :=
  match screen s.validate s.isImported headers with
  | .ok fresh => fresh
  | .error _ => []

variable {s : Synchronizer} {peer : PeerId}

theorem batches_storeHeaders (s : Synchronizer) (peer : PeerId) (displayId : String)
    (headers : List Header) :
    (s.storeHeaders peer displayId headers).2.requests.batches =
      match s.novel headers with
      | [] => s.requests.batches
      | fresh => s.requests.batches.insert peer ⟨fresh, s.now⟩ := by
  rw [storeHeaders_eq, novel]
  cases screen s.validate s.isImported headers with
  | error rejection => rfl
  | ok fresh => cases fresh <;> rfl

/-- A request that is not passed on forgets the batch of its peer, whichever that is. -/
theorem peek?_queueBodies (s : Synchronizer) (job : BodyJob) (peer : PeerId) :
    (s.queueBodies job).requests.batches.peek? peer =
      if job.peer = peer ∧ s.bodyJobs.push? job = none then none
      else s.requests.batches.peek? peer := by
  unfold queueBodies
  cases pushed : s.bodyJobs.push? job with
  | none =>
    have erased := Recency.peek?_erase s.requests.batches job.peer peer
    simpa [Requests.clear] using erased
  | some bodyJobs =>
    obtain ⟨turns, woken⟩ := wake_eq { s with bodyJobs } .bodies
    simp [woken]

theorem peek?_runBodyJob (s : Synchronizer) (job : BodyJob) (peer : PeerId) :
    (s.runBodyJob job).requests.batches.peek? peer =
      if job.peer = peer ∧ s.network.accepts job.peer = false then none
      else s.requests.batches.peek? peer := by
  have same : (s.recordRequest job.displayId .bodies).network = s.network := rfl
  unfold runBodyJob send
  rw [same]
  cases s.network.accepts job.peer with
  | true => simp [emit, recordRequest]
  | false =>
    have erased := Recency.peek?_erase s.requests.batches job.peer peer
    simpa [Requests.clear, recordRequest] using erased

/-- Only bodies that no batch is stored for are charged. -/
theorem effects_takeBodies {bodies : List Bytes} (some_came : bodies ≠ []) (displayId : String) :
    (s.takeBodies peer displayId bodies).2.effects =
      match (s.requests.take peer bodies.length s.chain.bestNumber).1 with
      | none => s.effects ++ [.charge peer displayId]
      | some _ => s.effects := by
  have cases := s.takeBodies_cases peer displayId bodies
  generalize s.takeBodies peer displayId bodies = answer at cases ⊢
  cases cases with
  | empty none_came => exact absurd none_came some_came
  | unexpected _ taken | unfit _ taken | stored _ taken | given _ taken =>
    rw [taken]
    rfl

/-- Bodies for the batch that is stored are matched, and nobody is charged. -/
theorem takeBodies_awaited {batch : Batch} {bodies : List Bytes}
    (awaited : s.requests.batches.peek? peer = some batch)
    (current : batch.isExpired s.chain.bestNumber = false) (some_came : bodies ≠ [])
    (count : batch.headers.length = bodies.length) (displayId : String) :
    s.matched peer bodies = assemble batch.headers bodies ∧
      (s.takeBodies peer displayId bodies).2.effects = s.effects := by
  have taken := take_batch awaited current count
  exact ⟨by rw [matched, taken], by rw [effects_takeBodies some_came, taken]⟩

theorem takeBodies_unasked {bodies : List Bytes}
    (awaited : s.requests.batches.peek? peer = none) (some_came : bodies ≠ [])
    (displayId : String) :
    s.matched peer bodies = [] ∧
      (s.takeBodies peer displayId bodies).2.effects = s.effects ++ [.charge peer displayId] := by
  have taken : s.requests.take peer bodies.length s.chain.bestNumber = (none, s.requests) := by
    rw [Requests.take, awaited]
  exact ⟨by rw [matched, taken], by rw [effects_takeBodies some_came, taken]⟩

end Synchronizer

/-- A synchronizer with the requests for bodies that are under way outside its queue. -/
structure Desk where
  sync : Synchronizer
  /-- Their batches are stored, and they are not queued yet. -/
  hand : List BodyJob
  /-- What the workers have begun. -/
  busy : List BodyJob

namespace Desk

def workers : Nat := 3

/-- What can happen between any two steps while one peer sends headers. -/
inductive Action where
  | headers (displayId : String) (headers : List Header)
  | queue (place : Nat)
  | start
  | finish (place : Nat)
  /-- Anything that leaves the queue and the stored batches alone. -/
  | elsewhere (after : Synchronizer)

def alone (s : Synchronizer) : Desk :=
  ⟨s, [], []⟩

variable (d : Desk) (peer : PeerId)

def headers (displayId : String) (headers : List Header) : Desk :=
  let (job, sync) := d.sync.storeHeaders peer displayId headers
  { d with sync, hand := d.hand ++ job.toList }

def queue (place : Nat) : Desk :=
  match d.hand[place]? with
  | some job => { d with sync := d.sync.queueBodies job, hand := d.hand.eraseIdx place }
  | none => d

/-- An idle worker takes the next job. -/
def start : Desk :=
  if d.busy.length < workers then
    match d.sync.bodyJobs.next? with
    | some (job, bodyJobs) =>
      { d with sync := { d.sync with bodyJobs }, busy := d.busy ++ [job] }
    | none => d
  else d

def finish (place : Nat) : Desk :=
  match d.busy[place]? with
  | some job => { d with sync := d.sync.runBodyJob job, busy := d.busy.eraseIdx place }
  | none => d

def elsewhere (after : Synchronizer) : Desk :=
  { d with
    sync := { after with
      bodyJobs := d.sync.bodyJobs
      requests := { after.requests with batches := d.sync.requests.batches } } }

def perform : Action → Desk
  | .headers displayId headers => d.headers peer displayId headers
  | .queue place => d.queue place
  | .start => d.start
  | .finish place => d.finish place
  | .elsewhere after => d.elsewhere after

def run (actions : List Action) : Desk :=
  actions.foldl (fun d action => d.perform peer action) d

/-- The batch of the peer that is stored. -/
def awaited : Option Batch :=
  d.sync.requests.batches.peek? peer

/-- What happens to the batch of a peer. -/
inductive Note where
  | stored (batch : Batch)
  /-- There was no room for the request in the queue. -/
  | unqueued (job : BodyJob)
  /-- The transport refused the request. -/
  | refused (job : BodyJob)
  deriving DecidableEq

def Note.batch? : Note → Option Batch
  | stored batch => some batch
  | unqueued _ | refused _ => none

def note? : Action → Option Note
  | .headers _ headers =>
    match d.sync.novel headers with
    | [] => none
    | fresh => some (.stored ⟨fresh, d.sync.now⟩)
  | .queue place => d.hand[place]?.bind fun job =>
      if job.peer = peer ∧ d.sync.bodyJobs.push? job = none then some (.unqueued job) else none
  | .finish place => d.busy[place]?.bind fun job =>
      if job.peer = peer ∧ d.sync.network.accepts job.peer = false then some (.refused job)
      else none
  | .start | .elsewhere _ => none

def notes (d : Desk) : List Action → List Note
  | [] => []
  | action :: rest => (d.note? peer action).toList ++ notes (d.perform peer action) rest

variable {d : Desk} {peer : PeerId}

/-- One step does to the batch of the peer what is noted of it. -/
theorem awaited_perform (action : Action) :
    (d.perform peer action).awaited peer =
      ((d.note? peer action).map Note.batch?).getD (d.awaited peer) := by
  cases action with
  | headers displayId headers =>
    change Recency.peek? (d.sync.storeHeaders peer displayId headers).2.requests.batches peer = _
    rw [Synchronizer.batches_storeHeaders, note?]
    cases d.sync.novel headers with
    | nil => rfl
    | cons first more => exact Recency.peek?_insert_self _ _ _
  | queue place =>
    rw [perform, queue, note?]
    cases d.hand[place]? with
    | none => rfl
    | some job =>
      refine (Synchronizer.peek?_queueBodies d.sync job peer).trans ?_
      rw [Option.bind_some]
      split <;> rfl
  | start =>
    rw [perform, start]
    split
    · split <;> rfl
    · rfl
  | finish place =>
    rw [perform, finish, note?]
    cases d.busy[place]? with
    | none => rfl
    | some job =>
      refine (Synchronizer.peek?_runBodyJob d.sync job peer).trans ?_
      rw [Option.bind_some]
      split <;> rfl
  | elsewhere after => rfl

theorem awaited_run (actions : List Action) :
    (d.run peer actions).awaited peer =
      (d.notes peer actions).foldl (fun _ note => note.batch?) (d.awaited peer) := by
  induction actions generalizing d with
  | nil => rfl
  | cons action rest ih =>
    change ((d.perform peer action).run peer rest).awaited peer = _
    rw [ih, awaited_perform, notes, List.foldl_append]
    cases d.note? peer action <;> rfl

/-- Headers that are taken in with nobody else about. -/
theorem run_takeHeaders (s : Synchronizer) (displayId : String) (headers : List Header) :
    ((alone s).run peer [.headers displayId headers, .queue 0]).sync =
      s.takeHeaders peer displayId headers := by
  rw [Synchronizer.takeHeaders_eq]
  change (((alone s).headers peer displayId headers).queue 0).sync = _
  unfold Desk.headers
  rw [show (alone s).sync = s from rfl]
  rcases s.storeHeaders peer displayId headers with ⟨job, t⟩
  cases job <;> rfl

theorem run_runBodies (s : Synchronizer) :
    ((alone s).run peer [.start, .finish 0, .elsewhere s.runBodies]).sync = s.runBodies := by
  change (((alone s).start.finish 0).elsewhere s.runBodies).sync = _
  have idle : (alone s).busy.length < workers := Nat.zero_lt_succ 2
  unfold Synchronizer.runBodies start
  rw [if_pos idle, show (alone s).sync = s from rfl]
  cases s.bodyJobs.next? with
  | none => rfl
  | some taken =>
    obtain ⟨job, bodyJobs⟩ := taken
    dsimp only
    split
    · rfl
    · obtain ⟨turns, woken⟩ :=
        Synchronizer.wake_eq ({ s with bodyJobs }.runBodyJob job) .bodies
      rw [woken]
      rfl

/-- However headers of one peer, the queueing of their requests and the work on them interleave,
and whatever the transport refuses: the batch that was stored last is awaited exactly if no
request of the peer has been dropped since, be it the request of an earlier batch. Then bodies in
the right number are matched without a charge, and otherwise they are charged. What a
synchronizer does by itself is such a run. -/
theorem batch_of_actions (s : Synchronizer) (peer : PeerId) (actions : List Action) :
    let d := (alone s).run peer actions
    (∀ front batch back, (alone s).notes peer actions = front ++ .stored batch :: back →
      (∀ note ∈ back, note.batch? = none) →
      d.awaited peer = if back = [] then some batch else none) ∧
    (∀ displayId bodies, bodies ≠ [] →
      (∀ batch, d.awaited peer = some batch →
        batch.isExpired d.sync.chain.bestNumber = false → batch.headers.length = bodies.length →
        d.sync.matched peer bodies = Synchronizer.assemble batch.headers bodies ∧
          (d.sync.takeBodies peer displayId bodies).2.effects = d.sync.effects) ∧
      (d.awaited peer = none →
        d.sync.matched peer bodies = [] ∧
          (d.sync.takeBodies peer displayId bodies).2.effects =
            d.sync.effects ++ [.charge peer displayId])) ∧
    (∀ displayId headers, ((alone s).run peer [.headers displayId headers, .queue 0]).sync =
      s.takeHeaders peer displayId headers) ∧
    ((alone s).run peer [.start, .finish 0, .elsewhere s.runBodies]).sync = s.runBodies := by
  intro d
  refine ⟨?_, ?_, run_takeHeaders s, run_runBodies s⟩
  · intro front batch back noted dropped
    have last : d.awaited peer = back.foldl (fun _ note => note.batch?) (some batch) := by
      rw [awaited_run, noted, List.foldl_append]
      rfl
    rw [last]
    cases back using List.reverseRecOn with
    | nil => rfl
    | append_singleton back note =>
      rw [List.foldl_append, if_neg (by simp)]
      exact dropped note (List.mem_append_right _ List.mem_cons_self)
  · intro displayId bodies some_came
    constructor
    · intro batch awaited current count
      exact Synchronizer.takeBodies_awaited awaited current some_came count displayId
    · intro awaited
      exact Synchronizer.takeBodies_unasked awaited some_came displayId

/-- The request of the first batch is refused when the second is stored. The request of the second
goes out, and its bodies are charged. -/
theorem later_batch_forgotten :
    let peer : PeerId := ⟨1⟩
    let s : Synchronizer := .new {} (fun _ => .ok ()) (.history Chain.Fork.start {} []) 0
    let refusing : Synchronizer :=
      { s with network := { Surroundings.none with accepts := fun _ => false } }
    let actions : List Action :=
      [.headers "a" [Chain.Fork.first.header], .headers "a" [Chain.Fork.heavy.header], .queue 0,
        .queue 0, .start, .elsewhere refusing, .finish 0, .elsewhere s, .start, .finish 0]
    let d := (alone s).run peer actions
    (alone s).notes peer actions =
        [.stored ⟨[Chain.Fork.first.header], 0⟩, .stored ⟨[Chain.Fork.heavy.header], 0⟩,
          .refused ⟨peer, "a", [Chain.Fork.first.hash]⟩] ∧
      d.sync.effects = [.send peer "a" (.reqBlocksBodies [Chain.Fork.heavy.hash])] ∧
      d.awaited peer = none ∧
      (d.sync.takeBodies peer "a" [Chain.Fork.heavy.body.encode]).2.effects =
        d.sync.effects ++ [.charge peer "a"] :=
  ⟨rfl, rfl, rfl, rfl⟩

end Desk

end BlockSync
