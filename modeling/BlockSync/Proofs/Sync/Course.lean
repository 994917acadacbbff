import BlockSync.Proofs.Sync.Runs

/-! The course of a synchronizer: a run with a log of what came and what was handed to the
chain. Between the assembly of a batch and its place in the queue anything may happen, so
batches in hand are kept apart from the queue. Whatever else a synchronizer does, it awaits
no further bodies and queues no further blocks. -/
namespace BlockSync

/-- What a run is told by: the answers of peers, the blocks handed to the chain at once, and
what other holders of the chain handed to it. -/
inductive Event where
  | headers (peer : PeerId) (headers : List Header)
  | bodies (peer : PeerId) (bodies : List Bytes)
  | handedOver (route : BatchRoute) (blocks : List Block)
  | elsewhere (delivery : Delivery)
  deriving DecidableEq, Repr

namespace Event

def handed? : Event → Option (List Block)
  | handedOver _ blocks => some blocks
  | _ => none

def isAnswer : Event → Bool
  | headers .. | bodies .. => true
  | _ => false

def answer (peer : PeerId) : Message → List Event
  | .resBlocksHeaders all => [headers peer all]
  | .resBlocksBodies all => [bodies peer all]
  | _ => []

def apply (c : Chain) : Event → Chain
  | handedOver .intake blocks => c.offerAll blocks
  | handedOver .pending blocks => (c.storeRange blocks).2
  | elsewhere delivery => c.deliver delivery
  | _ => c

end Event

/-- The blocks that a place of a log says were handed over. -/
def handedAt? (log : List Event) (place : Nat) : Option (List Block) :=
  log[place]?.bind Event.handed?

def replay (c : Chain) (log : List Event) : Chain :=
  log.foldl Event.apply c

@[simp] theorem replay_append (c : Chain) (log more : List Event) :
    replay c (log ++ more) = replay (replay c log) more :=
  List.foldl_append

def ImportJob.blocks? : ImportJob → Option (List Block)
  | batch _ blocks => some blocks
  | cycle => none

def batches (jobs : List ImportJob) : List (List Block) :=
  jobs.filterMap ImportJob.blocks?

@[simp] theorem batches_append (jobs more : List ImportJob) :
    batches (jobs ++ more) = batches jobs ++ batches more :=
  List.filterMap_append

theorem batches_perm {jobs others : List ImportJob} (same : jobs.Perm others) :
    (batches jobs).Perm (batches others) :=
  same.filterMap ImportJob.blocks?

/-- The blocks of a batch that the cache does not know when their turn comes. -/
def Intake.offers (i : Intake) : List Block → List Block
  | [] => []
  | block :: rest =>
    let next := (importBlock (i, .zero) block).1.offers rest
    if i.imported.contains block.hash then next else block :: next

theorem Intake.importBlock_fst (i : Intake) (summary : ImportSummary) (block : Block) :
    (importBlock (i, summary) block).1 = (importBlock (i, .zero) block).1 := by
  unfold importBlock
  dsimp only
  split <;> rfl

theorem Intake.chain_foldl_importBlock (i : Intake) (summary : ImportSummary)
    (blocks : List Block) :
    (blocks.foldl importBlock (i, summary)).1.chain = i.chain.offerAll (i.offers blocks) := by
  induction blocks generalizing i summary with
  | nil => rfl
  | cons block rest ih =>
    rw [List.foldl_cons, offers, ← i.importBlock_fst summary block, ih]
    cases known : i.imported.contains block.hash <;>
      simp [importBlock, known, Chain.offerAll]

theorem Intake.offers_sublist (i : Intake) (blocks : List Block) :
    (i.offers blocks).Sublist blocks := by
  induction blocks generalizing i with
  | nil => exact .slnil
  | cons block rest ih =>
    unfold offers
    dsimp only
    split
    · exact (ih _).cons block
    · exact (ih _).cons_cons block

theorem Backlog.jobs_of_next? {α : Type} {b after : Backlog α} {job : α}
    (next : b.next? = some (job, after)) : b.jobs = job :: after.jobs := by
  unfold Backlog.next? at next
  split at next
  · cases next
  · rename_i listed
    cases next
    exact listed

theorem Backlog.jobs_of_push? {α : Type} {b after : Backlog α} {job : α} (pushed : b.push? job = some after) :
    after.jobs = b.jobs ++ [job] := by
  unfold Backlog.push? at pushed
  split at pushed <;> cases pushed
  rfl

theorem Requests.entries_of_take {r requests : Requests} {peer : PeerId} {count : Nat}
    {localBest : UInt64} (taken : r.take peer count localBest = (none, requests)) :
    requests.batches.entries ⊆ r.batches.entries := by
  unfold take at taken
  split at taken
  · cases taken
    exact List.Subset.refl _
  · split at taken
    · cases taken
      exact fun _ listed => (List.mem_filter.1 listed).1
    · split at taken <;> cases taken
      exact List.Subset.refl _

theorem Requests.awaited_of_take {r requests : Requests} {peer : PeerId} {count : Nat}
    {localBest : UInt64} {headers : List Header}
    (taken : r.take peer count localBest = (some headers, requests)) :
    ∃ batch, (peer, batch) ∈ r.batches.entries ∧ batch.headers = headers ∧
      requests = r.clear peer := by
  unfold take at taken
  split at taken
  · cases taken
  · rename_i batch found
    split at taken
    · cases taken
    · split at taken <;> cases taken
      exact ⟨batch, Recency.mem_of_peek? found, rfl, rfl⟩

namespace Synchronizer

/-- The blocks that some bodies make with the batch that their sender's bodies are awaited
for. -/
def matched (s : Synchronizer) (peer : PeerId) (bodies : List Bytes) : List Block :=
  match (s.requests.take peer bodies.length s.chain.bestNumber).1 with
  | some headers => assemble headers bodies
  | none => []

/-- What is handed over when some bodies come: blocks that start far above the head. -/
def kept (s : Synchronizer) (peer : PeerId) (bodies : List Bytes) : List Event :=
  match s.matched peer bodies with
  | [] => []
  | first :: more =>
    match BatchRoute.of first.number s.chain.bestNumber with
    | .pending => [.handedOver .pending (first :: more)]
    | .intake => []

def imported (s : Synchronizer) : ImportJob → List Event
  | .batch _ blocks => [.handedOver .intake (s.intake.offers blocks)]
  | .cycle => []

/-- A run from a first state with its log and the batches in hand. Headers and bodies come
from peers, a batch in hand is queued or, if nothing is queued any more, lost, a queued job is
done, a request for bodies goes out, statuses, cycles and requests are dealt with, the chain
grows elsewhere, and clocks, turns and surroundings change. -/
inductive Course (first : Synchronizer) : List Event → List ImportJob → Synchronizer → Prop
  | new : Course first [] [] first
  | headers {log hand s} (before : Course first log hand s) (peer : PeerId)
      (displayId : String) (headers : List Header) :
      Course first (log ++ [.headers peer headers]) hand (s.takeHeaders peer displayId headers)
  | bodies {log hand s} (before : Course first log hand s) (peer : PeerId)
      (displayId : String) (bodies : List Bytes) :
      Course first (log ++ .bodies peer bodies :: s.kept peer bodies)
        (hand ++ (s.takeBodies peer displayId bodies).1.toList)
        (s.takeBodies peer displayId bodies).2
  | queued {log front job back s importJobs}
      (before : Course first log (front ++ job :: back) s)
      (room : s.importJobs.push? job = some importJobs) :
      Course first log (front ++ back) { s with importJobs }
  | lost {log front job back s} (before : Course first log (front ++ job :: back) s)
      (refused : s.importJobs.push? job = none) : Course first log (front ++ back) s
  | done {log hand s job importJobs} (before : Course first log hand s)
      (next : s.importJobs.next? = some (job, importJobs)) :
      Course first (log ++ s.imported job) hand ({ s with importJobs }.runImportJob job)
  | bodyRequest {log hand s} (before : Course first log hand s) :
      Course first log hand s.runBodies
  | status {log hand s} (before : Course first log hand s) (peer : PeerId)
      (displayId : String) (status : PeerStatus) :
      Course first log hand (s.takeStatus peer displayId status)
  | askForStatus {log hand s} (before : Course first log hand s) :
      Course first log hand s.askForStatus
  | cycle {log hand s} (before : Course first log hand s) : Course first log hand s.runCycle
  | queueCycle {log hand s} (before : Course first log hand s) :
      Course first log hand s.queueCycle
  | reply {log hand s} (before : Course first log hand s) (peer : PeerId)
      (displayId : String) (m : Message) : Course first log hand (s.reply peer displayId m)
  | serveBodies {log hand s} (before : Course first log hand s) (peer : PeerId)
      (displayId : String) (hashes : List Hash) :
      Course first log hand (s.serveBodies peer displayId hashes)
  | elsewhere {log hand s} (before : Course first log hand s) (delivery : Delivery) :
      Course first (log ++ [.elsewhere delivery]) hand (s.setChain (s.chain.deliver delivery))
  | aside {log hand s} (before : Course first log hand s) (network : Surroundings)
      (clock now : Instant) (turns : List Turn) (statusTimes : List Instant) (stopped : Bool)
      (bodyJobs : Backlog BodyJob) (accepting : Bool) (effects : List Effect) :
      Course first log hand
        { s with
          network, clock, now, turns, statusTimes, stopped, bodyJobs, effects
          importJobs := { s.importJobs with accepting } }

namespace Course

/-- A course leads on to a state without another answer on the way. -/
def Leads (first : Synchronizer) (log : List Event) (hand : List ImportJob) (t : Synchronizer) :
    Prop :=
  ∃ more, (∀ event ∈ more, event.isAnswer = false) ∧ Course first (log ++ more) hand t

variable {first s t : Synchronizer} {log : List Event} {hand : List ImportJob}

theorem leads (h : Course first log hand s) : Leads first log hand s :=
  ⟨[], fun _ member => absurd member List.not_mem_nil, by rwa [List.append_nil]⟩

theorem Leads.andThen {later : List ImportJob} (h : Leads first log hand s)
    (next : ∀ {log}, Course first log hand s → Leads first log later t) :
    Leads first log later t := by
  obtain ⟨more, silent, course⟩ := h
  obtain ⟨rest, still, further⟩ := next course
  refine ⟨more ++ rest, ?_, by rwa [← List.append_assoc]⟩
  intro event member
  exact (List.mem_append.1 member).elim (silent event) (still event)

theorem wake (h : Course first log hand s) (turn : Turn) : Course first log hand (s.wake turn) := by
  unfold Synchronizer.wake
  split
  · exact h
  · exact h.aside s.network s.clock s.now _ s.statusTimes s.stopped s.bodyJobs
      s.importJobs.accepting s.effects

theorem persists_leads (first : Synchronizer) (log : List Event) (hand : List ImportJob) :
    Persists (Leads first log hand) where
  turns h turns := h.andThen fun course =>
    (course.aside _ _ _ turns _ _ _ _ _).leads
  bodies h := h.andThen fun course => course.bodyRequest.leads
  job {s job _} h next := h.andThen fun course => by
    refine ⟨s.imported job, ?_, course.done next⟩
    cases job <;> simp [imported, Event.isAnswer]
  status h := h.andThen fun course => course.askForStatus.leads

theorem settle (h : Course first log hand s) : Leads first log hand s.settle :=
  (persists_leads first log hand).settle h.leads

theorem submit {job : ImportJob} (h : Course first log (hand ++ [job]) s) :
    Leads first log hand (s.submit job) := by
  refine (persists_leads first log (hand ++ [job])).submit h.leads ?_ ?_
  · intro t importJobs ready room
    refine ready.andThen ?_
    intro _ course
    have taken := course.queued room
    rw [List.append_nil] at taken
    exact (taken.wake .imports).leads
  · intro t ready refused
    refine ready.andThen ?_
    intro _ course
    have gone := course.lost refused
    rw [List.append_nil] at gone
    exact gone.leads

theorem deliverBodies (h : Course first log hand s) (peer : PeerId) (displayId : String)
    (bodies : List Bytes) :
    Leads first (log ++ [.bodies peer bodies]) hand (s.deliverBodies peer displayId bodies) := by
  have taken : Leads first (log ++ [.bodies peer bodies])
      (hand ++ (s.takeBodies peer displayId bodies).1.toList)
      (s.takeBodies peer displayId bodies).2 := by
    refine ⟨s.kept peer bodies, ?_, ?_⟩
    · unfold kept
      split
      · simp
      · split <;> simp [Event.isAnswer]
    · simpa using h.bodies peer displayId bodies
  unfold Synchronizer.deliverBodies
  split <;> rename_i result <;> rw [result] at taken
  · exact taken.andThen submit
  · simpa using taken

theorem handle (h : Course first log hand s) (peer : PeerId) (displayId : String) (m : Message) :
    Leads first (log ++ Event.answer peer m) hand (s.handle peer displayId m) := by
  cases m with
  | resBlocksHeaders headers => exact (h.headers peer displayId headers).leads
  | resBlocksBodies bodies => exact h.deliverBodies peer displayId bodies
  | resStatus status =>
    simpa [Event.answer, Synchronizer.handle] using (h.status peer displayId status).leads
  | reqStatus => simpa [Event.answer, Synchronizer.handle] using (h.reply peer displayId _).leads
  | reqBlocksHeaders start take =>
    simpa [Event.answer, Synchronizer.handle] using (h.reply peer displayId _).leads
  | reqBlocksBodies hashes =>
    simpa [Event.answer, Synchronizer.handle] using (h.serveBodies peer displayId hashes).leads
  | _ => simpa [Event.answer, Synchronizer.handle] using h.leads

theorem receive {peer : PeerId} {displayId : String} {e : Envelope}
    (h : Course first log hand s) (taken : s.receive peer displayId e = some t) :
    ∃ answers, Leads first (log ++ answers) hand t := by
  unfold Synchronizer.receive at taken
  split at taken
  · cases taken
  · split at taken <;> cases taken
    · exact ⟨_, h.handle peer displayId _⟩
    · refine ⟨[], ?_⟩
      rw [List.append_nil]
      exact (h.aside s.network s.clock s.now s.turns s.statusTimes s.stopped s.bodyJobs
        s.importJobs.accepting _).leads

theorem advance (h : Course first log hand s) (step : Duration) :
    Leads first log hand (s.advance step) := by
  unfold Synchronizer.advance
  refine (h.settle).andThen ?_
  intro _ course
  exact (course.aside _ _ _ _ _ _ _ _ _).settle

theorem shutDown (h : Course first log hand s) : Leads first log hand s.shutDown := by
  unfold Synchronizer.shutDown
  split
  · exact h.leads
  · have closing := (h.aside s.network s.clock s.now (s.turns.filter (· ≠ Turn.status)) [] true
      s.bodyJobs false s.effects).settle
    refine closing.andThen ?_
    intro _ course
    exact (course.aside _ _ _ _ _ _ _ _ _).leads

/-- Every step is part of a course, but for those that put a batch in from outside. -/
theorem step (h : Course first log hand s) (step : Step s t) :
    (∃ more, Course first (log ++ more) hand t) ∨ (∃ peer headers, t = s.storeBatch peer headers) ∨
      (∃ peer displayId headers, t = s.askForBodies peer displayId headers) ∨
        ∃ displayId blocks, t = (s.importBatch displayId blocks).2 := by
  have led (answers : List Event) (leads : Leads first (log ++ answers) hand t) :
      ∃ more, Course first (log ++ more) hand t := by
    obtain ⟨more, -, course⟩ := leads
    exact ⟨answers ++ more, by rwa [← List.append_assoc]⟩
  have led_silent (leads : Leads first log hand t) : ∃ more, Course first (log ++ more) hand t :=
    led [] (by rwa [List.append_nil])
  cases step with
  | receive peer displayId e taken =>
    obtain ⟨answers, leads⟩ := h.receive taken
    exact .inl (led answers leads)
  | handle peer displayId m => exact .inl (led _ (h.handle peer displayId m))
  | turn turn => exact .inl (led_silent ((persists_leads first log hand).runTurn h.leads turn))
  | imports count =>
    exact .inl (led_silent ((persists_leads first log hand).runImports h.leads count))
  | cycle => exact .inl (led_silent h.cycle.leads)
  | queueCycle => exact .inl (led_silent h.queueCycle.leads)
  | storeBatch peer headers => exact .inr (.inl ⟨peer, headers, rfl⟩)
  | askForBodies peer displayId headers => exact .inr (.inr (.inl ⟨peer, displayId, headers, rfl⟩))
  | importBatch displayId blocks => exact .inr (.inr (.inr ⟨displayId, blocks, rfl⟩))
  | offered delivery => exact .inl ⟨_, h.elsewhere delivery⟩
  | surroundings network now =>
    exact .inl (led_silent (h.aside network s.clock now s.turns s.statusTimes s.stopped s.bodyJobs
      s.importJobs.accepting s.effects).leads)
  | start =>
    exact .inl (led_silent (h.aside s.network s.clock s.now _ _ s.stopped s.bodyJobs
      s.importJobs.accepting s.effects).leads)
  | advance step => exact .inl (led_silent (h.advance step))
  | shutDown => exact .inl (led_silent h.shutDown)

end Course

/-- Nothing happens that matters to what is awaited, queued and connected, except that batches
may be forgotten. -/
structure Lull (s t : Synchronizer) : Prop where
  validate : t.validate = s.validate
  chain : t.chain = s.chain
  awaited : t.requests.batches.entries ⊆ s.requests.batches.entries
  queued : batches t.importJobs.jobs = batches s.importJobs.jobs

variable {s t u : Synchronizer} {job : ImportJob}

theorem Lull.owed (h : Lull s t) (hand : List ImportJob) :
    (batches (hand ++ s.importJobs.jobs)).Perm (batches (hand ++ t.importJobs.jobs)) := by
  rw [batches_append, ← h.queued, ← batches_append]

theorem Lull.refl (s : Synchronizer) : Lull s s :=
  ⟨rfl, rfl, List.Subset.refl _, rfl⟩

theorem Lull.trans (h : Lull s t) (k : Lull t u) : Lull s u :=
  ⟨k.validate.trans h.validate, k.chain.trans h.chain, List.Subset.trans k.awaited h.awaited,
    k.queued.trans h.queued⟩

theorem harmless_lull : Harmless Lull where
  trans := Lull.trans
  noted _ _ _ _ _ _ := ⟨rfl, rfl, List.Subset.refl _, rfl⟩
  said _ _ _ := ⟨rfl, rfl, List.Subset.refl _, rfl⟩
  queued s importJobs room := by
    refine ⟨rfl, rfl, List.Subset.refl _, ?_⟩
    simp [Backlog.jobs_of_push? room, batches, ImportJob.blocks?]

theorem lull_forget (s : Synchronizer) (peer : PeerId) :
    Lull s { s with requests := s.requests.clear peer } := by
  refine ⟨rfl, rfl, ?_, rfl⟩
  intro entry listed
  exact (List.mem_filter.1 listed).1

theorem lull_send (s : Synchronizer) (peer : PeerId) (displayId : String) (m : Message) :
    Lull s (s.send peer displayId m).2 := by
  unfold send
  split <;> exact ⟨rfl, rfl, List.Subset.refl _, rfl⟩

theorem lull_askForHeaders (s : Synchronizer) (p : PeerInfo) (start : UInt64) (take : UInt32) :
    Lull s (s.askForHeaders p start take) := by
  have sent := lull_send (s.recordRequest p.displayId .headers) p.peer p.displayId
    (.reqBlocksHeaders start take)
  unfold askForHeaders offerRequest
  split <;> rename_i result <;> rw [result] at sent <;> exact { sent with }

theorem lull_askAll (start : UInt64) (chosen : List (PeerInfo × Nat)) (s : Synchronizer) :
    Lull s (askAll start chosen s) := by
  induction chosen generalizing s with
  | nil => exact .refl s
  | cons first rest ih => exact (lull_askForHeaders s first.1 start _).trans (ih _)

theorem batches_pick (b : Bearings) (state : List PeerInfo × Requests) (p : PeerInfo) :
    (b.pick state p).2.batches = state.2.batches := by
  unfold Bearings.pick
  split <;> rfl

theorem batches_choosePeers (s : Synchronizer) (b : Bearings) :
    (s.choosePeers b).2.batches = s.requests.batches := by
  have kept (peers : List PeerInfo) (state : List PeerInfo × Requests) :
      (peers.foldl b.pick state).2.batches = state.2.batches := by
    induction peers generalizing state with
    | nil => rfl
    | cons p rest ih => rw [List.foldl_cons, ih, batches_pick]
  exact kept s.network.peers ([], s.requests)

theorem lull_runCycle (s : Synchronizer) : Lull s s.runCycle := by
  have begun : Lull s { s with requests := (s.choosePeers s.bearings).2 } := by
    refine ⟨rfl, rfl, ?_, rfl⟩
    rw [batches_choosePeers]
    exact List.Subset.refl _
  exact begun.trans (lull_askAll _ (s.choosePeers s.bearings).1.zipIdx _)

theorem lull_runBodyJob (s : Synchronizer) (job : BodyJob) : Lull s (s.runBodyJob job) := by
  have sent := lull_send (s.recordRequest job.displayId .bodies) job.peer job.displayId
    (.reqBlocksBodies job.hashes)
  unfold runBodyJob
  split <;> rename_i result <;> rw [result] at sent
  · exact { sent with }
  · exact Lull.trans { sent with } (lull_forget _ _)

theorem lull_runBodies (s : Synchronizer) : Lull s s.runBodies := by
  unfold runBodies
  split
  · exact .refl s
  · rename_i job bodyJobs _
    have ran : Lull s ({ s with bodyJobs }.runBodyJob job) :=
      { lull_runBodyJob { s with bodyJobs } job with }
    dsimp only
    split
    · exact ran
    · exact ran.trans (harmless_lull.wake _ _)

/-- Headers that come are at most awaited bodies for, and those that are passed the screening. -/
structure Awaits (s : Synchronizer) (peer : PeerId) (headers : List Header) (t : Synchronizer) :
    Prop where
  validate : t.validate = s.validate
  chain : t.chain = s.chain
  awaited : ∀ entry ∈ t.requests.batches.entries, entry ∈ s.requests.batches.entries ∨
    entry.1 = peer ∧ screen s.validate s.isImported headers = .ok entry.2.headers
  queued : batches t.importJobs.jobs = batches s.importJobs.jobs

theorem Awaits.lull {peer : PeerId} {headers : List Header} (h : Awaits s peer headers t)
    (k : Lull t u) : Awaits s peer headers u :=
  ⟨k.validate.trans h.validate, k.chain.trans h.chain,
    fun entry listed => h.awaited entry (k.awaited listed), k.queued.trans h.queued⟩

theorem awaits_takeHeaders (s : Synchronizer) (peer : PeerId) (displayId : String)
    (headers : List Header) : Awaits s peer headers (s.takeHeaders peer displayId headers) := by
  unfold takeHeaders
  dsimp only
  split
  · exact ⟨rfl, rfl, fun _ listed => .inl listed, rfl⟩
  · split
    · exact ⟨rfl, rfl, fun _ listed => .inl listed, rfl⟩
    · exact ⟨rfl, rfl, fun _ listed => .inl listed, rfl⟩
    · rename_i fresh _ screened
      have stored : ∀ entry ∈ ((s.requests.noteAnswered peer).store peer fresh s.now).batches.entries,
          entry ∈ s.requests.batches.entries ∨
            entry.1 = peer ∧ screen s.validate s.isImported headers = .ok entry.2.headers := by
        intro entry listed
        unfold Requests.store at listed
        split at listed
        · exact .inl listed
        · rcases Recency.mem_of_mem_insert listed with rfl | old
          · exact .inr ⟨rfl, screened⟩
          · exact .inl old
      split
      · refine Awaits.lull ?_ (harmless_lull.wake _ _)
        exact ⟨rfl, rfl, stored, rfl⟩
      · refine Awaits.lull ?_ (lull_forget _ _)
        exact ⟨rfl, rfl, stored, rfl⟩

/-- What comes of some bodies: nothing, or blocks that they make with the headers they were
awaited for, which are awaited no more. Such blocks are kept by the chain or given back. -/
inductive Matches (s : Synchronizer) (peer : PeerId) (displayId : String) (bodies : List Bytes) :
    Option ImportJob → List Event → Synchronizer → Prop
  | nothing {t : Synchronizer} (lull : Lull s t) : Matches s peer displayId bodies none [] t
  | pending {t : Synchronizer} {batch : Batch}
      (awaited : (peer, batch) ∈ s.requests.batches.entries)
      (chain : t.chain = (s.chain.storeRange (assemble batch.headers bodies)).2)
      (lull : Lull { s with requests := s.requests.clear peer } (t.setChain s.chain)) :
      Matches s peer displayId bodies none
        [.handedOver .pending (assemble batch.headers bodies)] t
  | intake {t : Synchronizer} {batch : Batch}
      (awaited : (peer, batch) ∈ s.requests.batches.entries)
      (lull : Lull { s with requests := s.requests.clear peer } t) :
      Matches s peer displayId bodies (some (.batch displayId (assemble batch.headers bodies))) [] t

theorem matches_takeBodies (s : Synchronizer) (peer : PeerId) (displayId : String)
    (bodies : List Bytes) :
    Matches s peer displayId bodies (s.takeBodies peer displayId bodies).1 (s.kept peer bodies)
      (s.takeBodies peer displayId bodies).2 := by
  have cases := s.takeBodies_cases peer displayId bodies
  generalize s.takeBodies peer displayId bodies = answer at cases ⊢
  cases cases with
  | empty none_came =>
    have unmatched : s.matched peer bodies = [] := by
      rw [none_came, matched]
      split
      · unfold assemble
        split <;> first | rfl | contradiction
      · rfl
    rw [kept, unmatched]
    exact .nothing ⟨rfl, rfl, List.Subset.refl _, rfl⟩
  | unexpected _ taken =>
    rw [kept, matched, taken]
    exact .nothing ⟨rfl, rfl, Requests.entries_of_take taken, rfl⟩
  | unfit _ taken apart =>
    obtain ⟨batch, -, -, rfl⟩ := Requests.awaited_of_take taken
    rw [kept, matched, taken]
    dsimp only
    rw [apart]
    exact .nothing ⟨rfl, rfl, fun _ kept => (List.mem_filter.1 kept).1, rfl⟩
  | stored _ taken fit far =>
    obtain ⟨batch, awaited, rfl, rfl⟩ := Requests.awaited_of_take taken
    rw [kept, matched, taken]
    dsimp only
    rw [fit]
    dsimp only
    rw [far, ← fit]
    exact .pending awaited rfl ⟨rfl, rfl, List.Subset.refl _, rfl⟩
  | given _ taken fit near =>
    obtain ⟨batch, awaited, rfl, rfl⟩ := Requests.awaited_of_take taken
    rw [kept, matched, taken]
    dsimp only
    rw [fit]
    dsimp only
    rw [near, ← fit]
    exact .intake awaited ⟨rfl, rfl, List.Subset.refl _, rfl⟩

theorem lull_runImportJob (s : Synchronizer) (job : ImportJob) :
    (s.runImportJob job).chain = replay s.chain (s.imported job) ∧
      Lull s ((s.runImportJob job).setChain s.chain) := by
  cases job with
  | cycle =>
    have cycled := lull_runCycle { s with cycleQueued := false }
    exact ⟨cycled.chain, { cycled with chain := rfl }⟩
  | batch displayId blocks =>
    have handed : (s.importBatch displayId blocks).2.chain =
        s.chain.offerAll (s.intake.offers blocks) :=
      (chain_importBatch s displayId blocks).trans (s.intake.chain_foldl_importBlock .zero blocks)
    have pruned : (s.requests.prune (s.intake.importBlocks blocks).1.chain.bestNumber).2.batches.entries
        ⊆ s.requests.batches.entries := fun _ kept => (List.mem_filter.1 kept).1
    refine ⟨handed, ?_⟩
    unfold runImportJob importBatch
    dsimp only
    split
    · have queued := harmless_lull.queueCycle
      exact ⟨(queued _).validate, rfl, List.Subset.trans (queued _).awaited pruned,
        (queued _).queued⟩
    · exact ⟨rfl, rfl, pruned, rfl⟩

end Synchronizer

end BlockSync
