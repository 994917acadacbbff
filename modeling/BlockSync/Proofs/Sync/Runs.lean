import BlockSync.Proofs.Chain.Waiting
import BlockSync.Proofs.Recency
import BlockSync.Sync.Serving

/-! Runs of the synchronizer. Whatever messages come, from whomever, and in whatever order
its work is done, the chain stays one that deliveries to the genesis block lead to, and
the cache of imported hashes names only blocks that are stored. Most of what it does is
only noted or said; the chain changes where a batch is imported or kept for later. -/
namespace BlockSync

namespace Chain

variable {c d : Chain}

/-- Every hash in the cache is that of a stored block. -/
def Knows (c : Chain) (cache : Recency Hash Unit) : Prop :=
  ∀ hash, cache.contains hash = true → ∃ block, c.blocks.get? hash = some block

theorem Steps.knows {cache : Recency Hash Unit} (steps : Steps c d) (h : c.Knows cache) :
    d.Knows cache :=
  fun hash held => steps.stored (h hash held)

/-- A block that is remembered as imported is stored by then. -/
theorem stored_of_connects {block : Block} (h : Intake.connects (c.offer block).1 = true) :
    ∃ other, (c.offer block).2.blocks.get? block.hash = some other := by
  by_cases known : c.blocks.contains block.hash = true
  · obtain ⟨other, stored⟩ := Table.contains_eq_true_iff.1 known
    rw [offer_of_stored stored]
    exact ⟨other, stored⟩
  · unfold offer at h ⊢
    rw [if_neg known] at h ⊢
    obtain ⟨refused, -⟩ | ⟨invalid, -⟩ | ⟨result, parent, total, -, imported, connected⟩ :=
      connect_cases (get?_eq_none_of_not_contains known)
    · rw [refused] at h
      dsimp only at h
      split at h <;> cases h
    · rw [invalid] at h
      cases h
    · rw [connected]
      dsimp only
      rw [if_pos imported]
      exact (steps_drain _ [block.hash]).stored ⟨block, get?_attach_self _ _ _⟩

end Chain

/-- An import leaves a cache that names only stored blocks, if it finds one. -/
theorem Chain.Knows.importBlock {i : Intake} (h : i.chain.Knows i.imported)
    (summary : ImportSummary) (block : Block) :
    let next := (Intake.importBlock (i, summary) block).1
    next.chain.Knows next.imported := by
  unfold Intake.importBlock
  dsimp only
  split
  · exact h
  · have kept := (Chain.steps_offer i.chain block).knows h
    intro hash held
    change Recency.contains (if _ then _ else _) hash = true at held
    split at held
    · rename_i connected
      rcases Recency.contains_insert held with rfl | old
      · exact Chain.stored_of_connects connected
      · exact kept hash old
    · exact kept hash held

/-- The chain has a history, and the hashes in the cache are those of stored blocks. -/
structure Intake.Sound (genesis : Block) (i : Intake) : Prop where
  reached : ∃ config deliveries, i.chain = Chain.history genesis config deliveries
  cached : ∀ hash, i.imported.contains hash = true → ∃ block, i.chain.blocks.get? hash = some block

namespace Intake

variable {genesis block : Block} {i j : Intake}

theorem Sound.congr (h : Sound genesis i) (chain : j.chain = i.chain)
    (imported : j.imported = i.imported) : Sound genesis j :=
  ⟨chain ▸ h.reached, by rw [chain, imported]; exact h.cached⟩

theorem Sound.ledger (h : Sound genesis i) : Chain.Ledger genesis i.chain := by
  obtain ⟨config, deliveries, chain⟩ := h.reached
  rw [chain]
  exact Chain.ledger_history genesis config deliveries

theorem Sound.waits (h : Sound genesis i) : Chain.Waits [] i.chain := by
  obtain ⟨config, deliveries, chain⟩ := h.reached
  rw [chain]
  exact (Chain.waits_history genesis config deliveries).1

theorem Sound.deliver (h : Sound genesis i) (delivery : Delivery) :
    Sound genesis { i with chain := i.chain.deliver delivery } := by
  refine ⟨?_, (Chain.steps_deliver i.chain delivery).knows h.cached⟩
  obtain ⟨config, deliveries, chain⟩ := h.reached
  refine ⟨config, deliveries ++ [delivery], ?_⟩
  rw [Chain.history_concat, ← chain]

theorem Sound.importBlock (h : Sound genesis i) (summary : ImportSummary) (block : Block) :
    Sound genesis (importBlock (i, summary) block).1 := by
  refine ⟨?_, Chain.Knows.importBlock h.cached summary block⟩
  unfold Intake.importBlock
  dsimp only
  split
  · exact h.reached
  · exact (h.deliver (.block block)).reached

theorem Sound.foldl_importBlock (h : Sound genesis i) (summary : ImportSummary)
    (blocks : List Block) : Sound genesis (blocks.foldl Intake.importBlock (i, summary)).1 := by
  induction blocks generalizing i summary with
  | nil => exact h
  | cons block rest ih => exact ih (h.importBlock summary block) _

end Intake

theorem BatchRoute.of_eq_pending_iff {first localBest : UInt64} :
    of first localBest = .pending ↔ localBest.toNat + 100 < first.toNat := by
  unfold of maxAhead
  split <;> simp_all

theorem BatchRoute.of_eq_intake_iff {first localBest : UInt64} :
    of first localBest = .intake ↔ first.toNat ≤ localBest.toNat + 100 := by
  unfold of maxAhead
  split <;> simp_all

structure HeaderRequest where
  peer : PeerId
  start : UInt64
  take : UInt32
  deriving DecidableEq, Repr

def Effect.headerRequest? : Effect → Option HeaderRequest
  | .send peer _ (.reqBlocksHeaders start take) => some ⟨peer, start, take⟩
  | _ => none

namespace Synchronizer

/-- The two differ at most in what is noted of peers and in what was said. -/
def Apart (s t : Synchronizer) : Prop :=
  ∃ requests statistics effects, t = { s with requests, statistics, effects }

variable {s t u : Synchronizer} {genesis : Block}

theorem Apart.refl (s : Synchronizer) : Apart s s :=
  ⟨_, _, _, rfl⟩

theorem Apart.trans (h : Apart s t) (k : Apart t u) : Apart s u := by
  obtain ⟨_, _, _, rfl⟩ := h
  obtain ⟨_, _, _, rfl⟩ := k
  exact ⟨_, _, _, rfl⟩

theorem Apart.intake (h : Apart s t) : t.intake = s.intake := by
  obtain ⟨_, _, _, rfl⟩ := h
  rfl

theorem apart_send (s : Synchronizer) (peer : PeerId) (displayId : String) (m : Message) :
    Apart s (s.send peer displayId m).2 := by
  unfold send
  split
  · exact ⟨_, _, _, rfl⟩
  · exact .refl s

theorem apart_askForHeaders (s : Synchronizer) (p : PeerInfo) (start : UInt64) (take : UInt32) :
    Apart s (s.askForHeaders p start take) := by
  have sent := apart_send (s.recordRequest p.displayId .headers) p.peer p.displayId
    (.reqBlocksHeaders start take)
  unfold askForHeaders offerRequest
  split <;> rename_i result <;> rw [result] at sent
  · exact Apart.trans ⟨_, _, _, rfl⟩ sent
  · exact Apart.trans ⟨_, _, _, rfl⟩ (sent.trans ⟨_, _, _, rfl⟩)

def askAll (start : UInt64) (chosen : List (PeerInfo × Nat)) (s : Synchronizer) : Synchronizer :=
  chosen.foldl (fun s (p, i) => askForHeaders s p start (requestSize i)) s

theorem apart_askAll (start : UInt64) (chosen : List (PeerInfo × Nat)) (s : Synchronizer) :
    Apart s (askAll start chosen s) := by
  induction chosen generalizing s with
  | nil => exact .refl s
  | cons first rest ih => exact (apart_askForHeaders s first.1 start _).trans (ih _)

theorem apart_runCycle (s : Synchronizer) : Apart s s.runCycle :=
  Apart.trans ⟨_, _, _, rfl⟩ (apart_askAll _ _ _)

theorem apart_runBodyJob (s : Synchronizer) (job : BodyJob) : Apart s (s.runBodyJob job) := by
  have sent := apart_send (s.recordRequest job.displayId .bodies) job.peer job.displayId
    (.reqBlocksBodies job.hashes)
  unfold runBodyJob
  split <;> rename_i result <;> rw [result] at sent
  · exact Apart.trans ⟨_, _, _, rfl⟩ sent
  · exact Apart.trans ⟨_, _, _, rfl⟩ (sent.trans ⟨_, _, _, rfl⟩)

theorem apart_askForBodies (s : Synchronizer) (peer : PeerId) (displayId : String)
    (headers : List Header) : Apart s (s.askForBodies peer displayId headers) :=
  Apart.trans ⟨_, _, _, rfl⟩ (apart_runBodyJob _ _)

@[simp] theorem intake_wake (s : Synchronizer) (turn : Turn) : (s.wake turn).intake = s.intake := by
  unfold wake
  split <;> rfl

@[simp] theorem intake_queueCycle (s : Synchronizer) : s.queueCycle.intake = s.intake := by
  unfold queueCycle
  split
  · rfl
  · split
    · exact intake_wake _ _
    · rfl

/-- A relation that holds between states that differ in what is noted and said, but for requests
for headers, and in a cycle that is queued. -/
structure Harmless (R : Synchronizer → Synchronizer → Prop) : Prop where
  trans {s t u : Synchronizer} (h : R s t) (k : R t u) : R s u
  noted (s : Synchronizer) (statistics : Statistics) (view : NetworkView) (metrics : Metrics)
    (turns : List Turn) (cycleQueued : Bool) :
    R s { s with statistics, view, turns, cycleQueued, intake := { s.intake with metrics } }
  said (s : Synchronizer) {e : Effect} (other : e.headerRequest? = none) : R s (s.emit e)
  queued (s : Synchronizer) {importJobs : Backlog ImportJob}
    (room : s.importJobs.push? .cycle = some importJobs) : R s { s with importJobs }

namespace Harmless

variable {R : Synchronizer → Synchronizer → Prop}

theorem refl (h : Harmless R) (s : Synchronizer) : R s s :=
  h.noted s s.statistics s.view s.metrics s.turns s.cycleQueued

theorem wake (h : Harmless R) (s : Synchronizer) (turn : Turn) : R s (s.wake turn) := by
  unfold Synchronizer.wake
  split
  · exact h.refl s
  · exact h.noted s s.statistics s.view s.metrics (s.turns ++ [turn]) s.cycleQueued

theorem queueCycle (h : Harmless R) (s : Synchronizer) : R s s.queueCycle := by
  unfold Synchronizer.queueCycle
  split
  · exact h.refl s
  · split
    · rename_i importJobs room
      have noted := h.noted { s with importJobs } s.statistics s.view s.metrics s.turns true
      exact h.trans (h.trans (h.queued s room) noted) (h.wake _ _)
    · exact h.refl s

theorem send (h : Harmless R) (s : Synchronizer) (peer : PeerId) (displayId : String) {m : Message}
    (other : (Effect.send peer displayId m).headerRequest? = none) :
    R s (s.send peer displayId m).2 := by
  unfold Synchronizer.send
  split
  · exact h.said s other
  · exact h.refl s

theorem statistics (h : Harmless R) (s : Synchronizer) (statistics : Statistics) :
    R s { s with statistics } :=
  h.noted s statistics s.view s.metrics s.turns s.cycleQueued

theorem askForStatus (h : Harmless R) (s : Synchronizer) : R s s.askForStatus := by
  unfold Synchronizer.askForStatus
  generalize s.network.peers = peers
  induction peers generalizing s with
  | nil => exact h.refl s
  | cons p rest ih =>
    have sent := h.trans (h.statistics s _)
      (h.send (s.recordRequest p.displayId .status) p.peer p.displayId (m := .reqStatus) rfl)
    exact h.trans sent (ih _)

theorem noteClaim (h : Harmless R) (s : Synchronizer) (displayId : String) (claim : PeerStatus) :
    R s (s.noteClaim displayId claim) := by
  have queued : R s (if claim.totalDifficulty > s.chain.total then s.queueCycle else s) := by
    split
    · exact h.queueCycle s
    · exact h.refl s
  unfold Synchronizer.noteClaim
  generalize (if claim.totalDifficulty > s.chain.total then s.queueCycle else s) = t at queued
  dsimp only
  split <;> exact h.trans queued (h.noted t t.statistics _ _ t.turns t.cycleQueued)

theorem takeStatus (h : Harmless R) (s : Synchronizer) (peer : PeerId) (displayId : String)
    (status : PeerStatus) : R s (s.takeStatus peer displayId status) := by
  have answered : R s (s.recordResponse displayId .status) := h.statistics s _
  unfold Synchronizer.takeStatus
  dsimp only
  split
  · exact h.trans answered (h.said _ rfl)
  · exact h.trans (h.trans answered (h.said _ rfl)) (h.noteClaim _ displayId status)

theorem serveBodies (h : Harmless R) (s : Synchronizer) (peer : PeerId) (displayId : String)
    (hashes : List Hash) : R s (s.serveBodies peer displayId hashes) :=
  h.trans (h.statistics s _) (h.send _ peer displayId rfl)

end Harmless

/-- Whatever work waits, doing it does not end a property. -/
structure Persists (P : Synchronizer → Prop) : Prop where
  turns {s : Synchronizer} (h : P s) (turns : List Turn) : P { s with turns }
  bodies {s : Synchronizer} (h : P s) : P s.runBodies
  job {s : Synchronizer} {job : ImportJob} {importJobs : Backlog ImportJob} (h : P s)
    (next : s.importJobs.next? = some (job, importJobs)) :
    P ({ s with importJobs }.runImportJob job)
  status {s : Synchronizer} (h : P s) : P s.askForStatus

namespace Persists

variable {P Q : Synchronizer → Prop}

theorem runImports (persists : Persists P) (h : P s) (fuel : Nat) :
    P (Synchronizer.runImports fuel s) := by
  induction fuel generalizing s with
  | zero => exact h
  | succ fuel ih =>
    rw [Synchronizer.runImports]
    split
    · exact h
    · rename_i job importJobs next
      exact ih (persists.job h next)

theorem runTurn (persists : Persists P) (h : P s) (turn : Turn) : P (s.runTurn turn) := by
  cases turn with
  | bodies => exact persists.bodies h
  | imports => exact persists.runImports h _
  | status => exact persists.status h

theorem runTurns (persists : Persists P) (h : P s) (fuel : Nat) :
    P (Synchronizer.runTurns fuel s) := by
  induction fuel generalizing s with
  | zero => exact h
  | succ fuel ih =>
    rw [Synchronizer.runTurns]
    split
    · exact h
    · rename_i turn turns _
      exact ih (persists.runTurn (persists.turns h turns) turn)

theorem settle (persists : Persists P) (h : P s) : P s.settle :=
  persists.runTurns h _

/-- A batch that is handed in is queued after the work that waits, or is lost. -/
theorem submit (persists : Persists P) (h : P s) {job : ImportJob}
    (queued : ∀ {t : Synchronizer} {importJobs : Backlog ImportJob}, P t →
      t.importJobs.push? job = some importJobs → Q ({ t with importJobs }.wake .imports))
    (lost : ∀ {t : Synchronizer}, P t → t.importJobs.push? job = none → Q t) :
    Q (s.submit job) := by
  have ready : P (if s.importJobs.accepting && s.importJobs.isFull then s.settle else s) := by
    split
    · exact persists.settle h
    · exact h
  unfold Synchronizer.submit
  generalize (if s.importJobs.accepting && s.importJobs.isFull then s.settle else s) = t at ready
  dsimp only
  split
  · rename_i room
    exact queued ready room
  · rename_i refused
    exact lost ready refused

end Persists

/-- What comes of bodies. Without any nothing does, and their sender is charged if no batch
awaits them. Otherwise the blocks that they make are stored or given back, if there are any. -/
inductive BodiesTaken (s : Synchronizer) (peer : PeerId) (displayId : String)
    (bodies : List Bytes) : Option ImportJob × Synchronizer → Prop
  | empty (none_came : bodies = []) :
      BodiesTaken s peer displayId bodies (none, s.recordResponse displayId .bodies)
  | unexpected {requests : Requests} (some_came : bodies ≠ [])
      (taken : s.requests.take peer bodies.length s.chain.bestNumber = (none, requests)) :
      BodiesTaken s peer displayId bodies
        (none, { s.recordResponse displayId .bodies with requests }.emit (.charge peer displayId))
  | unfit {headers : List Header} {requests : Requests} (some_came : bodies ≠ [])
      (taken : s.requests.take peer bodies.length s.chain.bestNumber = (some headers, requests))
      (apart : assemble headers bodies = []) :
      BodiesTaken s peer displayId bodies
        (none, { s.recordResponse displayId .bodies with requests })
  | stored {headers : List Header} {requests : Requests} {first : Block} {more : List Block}
      (some_came : bodies ≠ [])
      (taken : s.requests.take peer bodies.length s.chain.bestNumber = (some headers, requests))
      (fit : assemble headers bodies = first :: more)
      (far : BatchRoute.of first.number s.chain.bestNumber = .pending) :
      BodiesTaken s peer displayId bodies
        (none,
          ({ s.recordResponse displayId .bodies with requests }.setChain
            (s.chain.storeRange (first :: more)).2).recordBlocks displayId .stored
              (s.chain.storeRange (first :: more)).1)
  | given {headers : List Header} {requests : Requests} {first : Block} {more : List Block}
      (some_came : bodies ≠ [])
      (taken : s.requests.take peer bodies.length s.chain.bestNumber = (some headers, requests))
      (fit : assemble headers bodies = first :: more)
      (near : BatchRoute.of first.number s.chain.bestNumber = .intake) :
      BodiesTaken s peer displayId bodies
        (some (.batch displayId (first :: more)),
          { s.recordResponse displayId .bodies with requests })

theorem takeBodies_cases (s : Synchronizer) (peer : PeerId) (displayId : String)
    (bodies : List Bytes) :
    BodiesTaken s peer displayId bodies (s.takeBodies peer displayId bodies) := by
  by_cases none_came : bodies = []
  · subst none_came
    exact .empty rfl
  -- the response is noted first, which leaves the requests and the chain as they are
  have unmoved : (s.recordResponse displayId .bodies).requests.take peer bodies.length
      (s.recordResponse displayId .bodies).chain.bestNumber =
        s.requests.take peer bodies.length s.chain.bestNumber := rfl
  unfold takeBodies
  dsimp only
  rw [if_neg (by simpa using none_came), unmoved]
  rcases taken : s.requests.take peer bodies.length s.chain.bestNumber with ⟨batch, requests⟩
  cases batch with
  | none => exact .unexpected none_came taken
  | some headers =>
    dsimp only
    cases fit : assemble headers bodies with
    | nil => exact .unfit none_came taken fit
    | cons first more =>
      dsimp only
      cases route : BatchRoute.of first.number (s.recordResponse displayId .bodies).chain.bestNumber with
      | pending => exact .stored none_came taken fit route
      | intake => exact .given none_came taken fit route

def Sound (genesis : Block) (s : Synchronizer) : Prop :=
  s.intake.Sound genesis

theorem Sound.congr (h : Sound genesis s) (same : t.intake = s.intake) : Sound genesis t :=
  Intake.Sound.congr h (congrArg Intake.chain same) (congrArg Intake.imported same)

theorem Sound.apart (h : Sound genesis s) (apart : Apart s t) : Sound genesis t :=
  h.congr apart.intake

theorem Sound.deliver (h : Sound genesis s) (delivery : Delivery) :
    Sound genesis (s.setChain (s.chain.deliver delivery)) :=
  Intake.Sound.deliver h delivery

theorem harmless_sound (genesis : Block) :
    Harmless fun s t => Sound genesis s → Sound genesis t where
  trans h k sound := k (h sound)
  noted _ _ _ _ _ _ sound := Intake.Sound.congr sound rfl rfl
  said _ _ _ sound := sound.congr rfl
  queued _ _ _ sound := sound.congr rfl

theorem Sound.takeHeaders (h : Sound genesis s) (peer : PeerId) (displayId : String)
    (headers : List Header) : Sound genesis (s.takeHeaders peer displayId headers) := by
  unfold Synchronizer.takeHeaders
  dsimp only
  split
  · exact h.congr rfl
  · split
    · exact Intake.Sound.congr h rfl rfl
    · exact h.congr rfl
    · split
      · exact h.congr (intake_wake _ _)
      · exact h.congr rfl

theorem Sound.takeBodies (h : Sound genesis s) (peer : PeerId) (displayId : String)
    (bodies : List Bytes) : Sound genesis (s.takeBodies peer displayId bodies).2 := by
  have taken := s.takeBodies_cases peer displayId bodies
  generalize s.takeBodies peer displayId bodies = answer at taken ⊢
  cases taken with
  | empty => exact h.congr rfl
  | unexpected => exact h.congr rfl
  | unfit => exact h.congr rfl
  | @stored headers requests first more => exact Sound.congr (h.deliver (.range (first :: more))) rfl
  | given => exact h.congr rfl

theorem chain_importBatch (s : Synchronizer) (displayId : String) (blocks : List Block) :
    (s.importBatch displayId blocks).2.chain = (s.intake.importBlocks blocks).1.chain := by
  unfold Synchronizer.importBatch
  dsimp only
  split
  · rw [Synchronizer.chain, intake_queueCycle]
    rfl
  · rfl

theorem Sound.importBatch (h : Sound genesis s) (displayId : String) (blocks : List Block) :
    Sound genesis (s.importBatch displayId blocks).2 := by
  have imported := Intake.Sound.foldl_importBlock h .zero blocks
  unfold Synchronizer.importBatch
  dsimp only
  split
  · refine Sound.congr ?_ (intake_queueCycle _)
    exact Intake.Sound.congr imported rfl rfl
  · exact Intake.Sound.congr imported rfl rfl

theorem Sound.runImportJob (h : Sound genesis s) (job : ImportJob) :
    Sound genesis (s.runImportJob job) := by
  cases job with
  | batch displayId blocks => exact h.importBatch displayId blocks
  | cycle =>
    have begun : Sound genesis { s with cycleQueued := false } := h.congr rfl
    exact begun.apart (apart_runCycle _)

theorem Sound.runBodies (h : Sound genesis s) : Sound genesis s.runBodies := by
  unfold Synchronizer.runBodies
  split
  · exact h
  · rename_i job bodyJobs _
    have begun : Sound genesis { s with bodyJobs } := h.congr rfl
    have ran := begun.apart (apart_runBodyJob _ job)
    dsimp only
    split
    · exact ran
    · exact ran.congr (intake_wake _ _)

theorem persists_sound (genesis : Block) : Persists (Sound genesis) where
  turns h _ := h.congr rfl
  bodies h := h.runBodies
  job {s job importJobs} h _ := by
    have begun : Sound genesis { s with importJobs } := h.congr rfl
    exact begun.runImportJob job
  status h := (harmless_sound genesis).askForStatus _ h

theorem Sound.settle (h : Sound genesis s) : Sound genesis s.settle :=
  (persists_sound genesis).settle h

theorem Sound.submit (h : Sound genesis s) (job : ImportJob) : Sound genesis (s.submit job) :=
  (persists_sound genesis).submit h (fun ready _ => ready.congr (intake_wake _ _))
    fun ready _ => ready

theorem Sound.deliverBodies (h : Sound genesis s) (peer : PeerId) (displayId : String)
    (bodies : List Bytes) : Sound genesis (s.deliverBodies peer displayId bodies) := by
  have taken := h.takeBodies peer displayId bodies
  unfold Synchronizer.deliverBodies
  split <;> rename_i result <;> rw [result] at taken
  · exact taken.submit _
  · exact taken

theorem Sound.handle (h : Sound genesis s) (peer : PeerId) (displayId : String) (m : Message) :
    Sound genesis (s.handle peer displayId m) := by
  unfold Synchronizer.handle
  split
  · exact h.apart (apart_send _ _ _ _)
  · exact (harmless_sound genesis).takeStatus s peer displayId _ h
  · exact h.apart (apart_send _ _ _ _)
  · exact h.takeHeaders _ _ _
  · exact (harmless_sound genesis).serveBodies s peer displayId _ h
  · exact h.deliverBodies _ _ _
  · exact h

/-- What can happen to a synchronizer: a message comes, whatever it says, some of the work
that waits is done, a batch is remembered or imported, another holder of the chain offers
blocks to it, its surroundings or its clock change, or it is started or shut down. -/
inductive Step : Synchronizer → Synchronizer → Prop
  | receive {s t : Synchronizer} (peer : PeerId) (displayId : String) (e : Envelope)
      (taken : s.receive peer displayId e = some t) : Step s t
  | handle (s : Synchronizer) (peer : PeerId) (displayId : String) (m : Message) :
      Step s (s.handle peer displayId m)
  | turn (s : Synchronizer) (turn : Turn) : Step s (s.runTurn turn)
  | imports (s : Synchronizer) (count : Nat) : Step s (runImports count s)
  | cycle (s : Synchronizer) : Step s s.runCycle
  | queueCycle (s : Synchronizer) : Step s s.queueCycle
  | storeBatch (s : Synchronizer) (peer : PeerId) (headers : List Header) :
      Step s (s.storeBatch peer headers)
  | askForBodies (s : Synchronizer) (peer : PeerId) (displayId : String) (headers : List Header) :
      Step s (s.askForBodies peer displayId headers)
  | importBatch (s : Synchronizer) (displayId : String) (blocks : List Block) :
      Step s (s.importBatch displayId blocks).2
  | offered (s : Synchronizer) (delivery : Delivery) :
      Step s (s.setChain (s.chain.deliver delivery))
  | surroundings (s : Synchronizer) (network : Surroundings) (now : Instant) :
      Step s { s with network, now }
  | start (s : Synchronizer) : Step s s.start
  | advance (s : Synchronizer) (step : Duration) : Step s (s.advance step)
  | shutDown (s : Synchronizer) : Step s s.shutDown

/-- The states that a synchronizer gets into that began on a chain with a history. -/
inductive Reachable (genesis : Block) : Synchronizer → Prop
  | new (config : SyncConfig) (validate : Validator) (chainConfig : ChainConfig)
      (deliveries : List Delivery) (started : Instant) :
      Reachable genesis (.new config validate (.history genesis chainConfig deliveries) started)
  | step {s t : Synchronizer} (before : Reachable genesis s) (step : Step s t) : Reachable genesis t

theorem Sound.step (h : Sound genesis s) (step : Step s t) : Sound genesis t := by
  cases step with
  | receive peer displayId e taken =>
    unfold Synchronizer.receive at taken
    split at taken
    · cases taken
    · split at taken <;> cases taken
      · exact h.handle _ _ _
      · exact h.congr rfl
  | handle peer displayId m => exact h.handle peer displayId m
  | turn turn => exact (persists_sound genesis).runTurn h turn
  | imports count => exact (persists_sound genesis).runImports h count
  | cycle => exact h.apart (apart_runCycle s)
  | queueCycle => exact h.congr (intake_queueCycle s)
  | storeBatch peer headers => exact h.congr rfl
  | askForBodies peer displayId headers => exact h.apart (apart_askForBodies _ _ _ _)
  | importBatch displayId blocks => exact h.importBatch displayId blocks
  | offered delivery => exact h.deliver delivery
  | surroundings network now => exact h.congr rfl
  | start => exact h.congr rfl
  | advance step =>
    unfold Synchronizer.advance
    exact Sound.settle (Sound.congr h.settle rfl)
  | shutDown =>
    unfold Synchronizer.shutDown
    split
    · exact h
    · refine Sound.congr (Sound.settle ?_) rfl
      exact h.congr rfl

theorem sound_of_reachable (reachable : Reachable genesis s) : Sound genesis s := by
  induction reachable with
  | new config validate chainConfig deliveries started =>
    exact ⟨⟨chainConfig, deliveries, rfl⟩, fun hash held => by cases held⟩
  | step _ step ih => exact ih.step step

end Synchronizer

end BlockSync
