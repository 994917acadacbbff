import BlockSync.Proofs.Chain.Offers
import BlockSync.Proofs.Sync.BodyAnswers
import BlockSync.Proofs.Sync.Course
import BlockSync.Proofs.Sync.Overtaking

/-! The head that peers are told. Every import publishes the head of the chain when it is done, so
whatever waits and is worked off leaves the head published that the chain has. Blocks far above
the head go past the imports to pending storage, and nothing is published then. That does no harm
as long as all of them wait; but one whose parent is stored is connected, and if it is heavier
than the head the chain moves on and the published head stays behind. -/
namespace BlockSync

namespace Chain

variable {genesis parent first : Block} {c d : Chain} {total : Difficulty} {more blocks : List Block}

/-- The head moves only up, so it stays as long as its total does. -/
theorem Ledger.head_eq_iff (h : Ledger genesis c) (steps : Steps c d) :
    Synchronizer.head d = Synchronizer.head c ↔ d.total = c.total := by
  have grown := (h.steps steps).2
  constructor
  · exact congrArg ChainInfo.totalDifficulty
  · intro same
    have best : d.best = c.best := by
      refine grown.best_moves_up.resolve_right ?_
      rw [same]
      exact BitVec.lt_irrefl _
    obtain ⟨block, stored⟩ := h.stored_of_total h.best_total
    have number : d.bestNumber = c.bestNumber := by
      rw [bestNumber_eq stored, bestNumber_eq (best ▸ grown.blocks_kept _ _ stored)]
    rw [Synchronizer.head, Synchronizer.head, number, best, same]

/-- A range whose first block is connected and is heavier than the head moves the head. -/
theorem Ledger.total_lt_storeRange (h : Ledger genesis c) (fits : c.Fits first parent total)
    (heavier : c.total < total + first.header.difficulty) (more : List Block) :
    c.total < (c.storeRange (first :: more)).2.total := by
  have absent : ¬ c.blocks.contains first.hash = true := by
    simp [Table.contains, fits.fresh]
  have held : c.totals.contains first.parentHash = true :=
    Table.contains_eq_true_iff.2 ⟨total, fits.parent_total⟩
  let attached := c.attach first (total + first.header.difficulty)
  have stored : (c.storeRange (first :: more)).2 =
      ((attached.drain [first.hash]).2.storeRange more).2 := by
    rw [storeRange]
    dsimp only
    rw [if_neg absent, if_pos held, h.connect_of_fits fits, if_pos heavier]
    rfl
  have later : Steps attached (c.storeRange (first :: more)).2 := by
    rw [stored]
    exact (steps_drain _ _).trans (steps_storeRange _ _)
  have moved : attached.total = total + first.header.difficulty := by
    rw [h.total_attach fits.fresh, if_pos heavier]
  have above := ((h.attach fits).steps later).2.total_le
  rw [moved] at above
  exact Std.lt_of_lt_of_le heavier above

/-- A range of blocks that are stored or whose parents are not changes pending storage only. -/
theorem storeRange_of_idle (idle : ∀ block ∈ blocks,
      (∃ other, c.blocks.get? block.hash = some other) ∨ c.totals.get? block.parentHash = none) :
    ∃ pending pendingCount, (c.storeRange blocks).2 = { c with pending, pendingCount } := by
  induction blocks generalizing c with
  | nil => exact ⟨_, _, rfl⟩
  | cons first rest ih =>
    have others := fun block member => idle block (List.mem_cons_of_mem first member)
    rw [storeRange]
    dsimp only
    split
    · exact ih others
    · rename_i absent
      have orphan : ¬ c.totals.contains first.parentHash = true := by
        rcases idle first List.mem_cons_self with stored | missing
        · exact absurd (Table.contains_eq_true_iff.2 stored) absent
        · simp [Table.contains, missing]
      rw [if_neg orphan]
      rcases storePending_cases c first with ⟨-, kept⟩ | ⟨-, kept, -⟩ | ⟨-, kept, -⟩ <;> rw [kept]
      · exact ⟨_, _, rfl⟩
      · exact ih others
      · obtain ⟨pending, pendingCount, stored⟩ := @ih (c.keep first) others
        exact ⟨pending, pendingCount, stored⟩

end Chain

def Effect.published? : Effect → Option ChainInfo
  | .publish chain => some chain
  | _ => none

namespace Synchronizer

/-- The head that was published last. -/
def published (s : Synchronizer) : Option ChainInfo :=
  (s.effects.filterMap Effect.published?).getLast?

/-- The head that was published last is the head of the chain. -/
def Announced (s : Synchronizer) : Prop :=
  s.published = some (head s.chain)

/-- The chain stays as it is, and nothing is published. -/
structure Mute (s t : Synchronizer) : Prop where
  chain : t.chain = s.chain
  published : t.published = s.published

variable {s t u : Synchronizer}

theorem Mute.refl (s : Synchronizer) : Mute s s :=
  ⟨rfl, rfl⟩

theorem Mute.trans (h : Mute s t) (k : Mute t u) : Mute s u :=
  ⟨k.chain.trans h.chain, k.published.trans h.published⟩

theorem Mute.announced (h : Mute s t) (announced : s.Announced) : t.Announced := by
  rw [Announced, h.published, h.chain]
  exact announced

theorem mute_emit (s : Synchronizer) {e : Effect} (other : e.published? = none) :
    Mute s (s.emit e) := by
  refine ⟨rfl, ?_⟩
  unfold published emit
  rw [List.filterMap_append, List.filterMap_cons_none other, List.filterMap_nil, List.append_nil]

theorem mute_send (s : Synchronizer) (peer : PeerId) (displayId : String) (m : Message) :
    Mute s (s.send peer displayId m).2 := by
  unfold send
  split
  · exact mute_emit s rfl
  · exact .refl s

theorem mute_wake (s : Synchronizer) (turn : Turn) : Mute s (s.wake turn) := by
  obtain ⟨turns, woken⟩ := wake_eq s turn
  rw [woken]
  exact ⟨rfl, rfl⟩

theorem mute_queueCycle (s : Synchronizer) : Mute s s.queueCycle := by
  obtain ⟨importJobs, cycleQueued, turns, queued⟩ := s.queueCycle_eq
  rw [queued]
  exact ⟨rfl, rfl⟩

theorem mute_askForStatus (s : Synchronizer) : Mute s s.askForStatus := by
  unfold askForStatus
  generalize s.network.peers = peers
  induction peers generalizing s with
  | nil => exact .refl s
  | cons p rest ih =>
    have sent := mute_send (s.recordRequest p.displayId .status) p.peer p.displayId .reqStatus
    exact Mute.trans ⟨sent.chain, sent.published⟩ (ih _)

theorem mute_askForHeaders (s : Synchronizer) (p : PeerInfo) (start : UInt64) (take : UInt32) :
    Mute s (s.askForHeaders p start take) := by
  have sent := mute_send (s.recordRequest p.displayId .headers) p.peer p.displayId
    (.reqBlocksHeaders start take)
  unfold askForHeaders offerRequest
  split <;> rename_i result <;> rw [result] at sent <;> exact ⟨sent.chain, sent.published⟩

theorem mute_askAll (start : UInt64) (chosen : List (PeerInfo × Nat)) (s : Synchronizer) :
    Mute s (askAll start chosen s) := by
  induction chosen generalizing s with
  | nil => exact .refl s
  | cons first rest ih => exact (mute_askForHeaders s first.1 start _).trans (ih _)

theorem mute_runBodyJob (s : Synchronizer) (job : BodyJob) : Mute s (s.runBodyJob job) := by
  have sent := mute_send (s.recordRequest job.displayId .bodies) job.peer job.displayId
    (.reqBlocksBodies job.hashes)
  unfold runBodyJob
  split <;> rename_i result <;> rw [result] at sent <;> exact ⟨sent.chain, sent.published⟩

theorem mute_runBodies (s : Synchronizer) : Mute s s.runBodies := by
  unfold runBodies
  split
  · exact .refl s
  · rename_i job bodyJobs _
    have ran := mute_runBodyJob { s with bodyJobs } job
    dsimp only
    split
    · exact ⟨ran.chain, ran.published⟩
    · exact Mute.trans ⟨ran.chain, ran.published⟩ (mute_wake _ _)

/-- An import publishes the head that it leads to, and queueing a cycle says nothing more. -/
theorem announced_importBatch (s : Synchronizer) (displayId : String) (blocks : List Block) :
    (s.importBatch displayId blocks).2.Announced := by
  have said (t : Synchronizer) : (t.emit (.publish (head t.chain))).Announced := by
    unfold Announced published emit
    rw [List.filterMap_append]
    exact List.getLast?_concat
  unfold importBatch
  dsimp only
  split
  · exact (mute_queueCycle _).announced (said _)
  · exact said _

/-- Whatever work waits, doing it leaves the head published. -/
theorem persists_announced : Persists Announced where
  turns h _ := h
  bodies {s} h := (mute_runBodies s).announced h
  job {s job importJobs} h _ := by
    cases job with
    | batch displayId blocks => exact announced_importBatch _ displayId blocks
    | cycle => exact (mute_askAll _ _ _).announced h
  status {s} h := (mute_askForStatus s).announced h

variable {genesis : Block} {peer : PeerId} {bodies : List Bytes} {blocks : List Block}

theorem takeBodies_aside (s : Synchronizer) (peer : PeerId) (displayId : String)
    (bodies : List Bytes) :
    (s.takeBodies peer displayId bodies).2.published = s.published ∧
      (s.takeBodies peer displayId bodies).2.importJobs = s.importJobs := by
  have taken := s.takeBodies_cases peer displayId bodies
  generalize s.takeBodies peer displayId bodies = answer at taken ⊢
  cases taken with
  | unexpected => exact ⟨(mute_emit _ rfl).published, rfl⟩
  | empty | unfit | stored | given => exact ⟨rfl, rfl⟩

/-- As long as nothing is kept, the head stays published until all is imported. -/
theorem announced_of_unkept (announced : s.Announced) (unkept : s.kept peer bodies = [])
    (displayId : String) : (s.deliverBodies peer displayId bodies).Announced := by
  have said := (s.takeBodies_aside peer displayId bodies).1
  have matched := matches_takeBodies s peer displayId bodies
  rw [unkept] at matched
  unfold deliverBodies
  generalize s.takeBodies peer displayId bodies = taken at said matched
  obtain ⟨job, t⟩ := taken
  dsimp only at said matched ⊢
  cases matched with
  | nothing lull => exact (Mute.mk lull.chain said).announced announced
  | intake _ lull =>
    have ready : t.Announced := (Mute.mk lull.chain said).announced announced
    exact persists_announced.submit ready
      (fun waited _ => (mute_wake _ _).announced waited) fun waited _ => waited

/-- Blocks that are kept change the chain, and nothing is said or queued. -/
theorem deliverBodies_of_kept (kept : s.kept peer bodies = [.handedOver .pending blocks])
    (displayId : String) :
    let t := s.deliverBodies peer displayId bodies
    t.chain = (s.chain.storeRange blocks).2 ∧ t.published = s.published ∧
      t.importJobs = s.importJobs := by
  have aside := s.takeBodies_aside peer displayId bodies
  have matched := matches_takeBodies s peer displayId bodies
  rw [kept] at matched
  unfold deliverBodies
  generalize s.takeBodies peer displayId bodies = taken at aside matched
  obtain ⟨job, t⟩ := taken
  dsimp only at aside matched ⊢
  cases matched with
  | pending _ chain => exact ⟨chain, aside⟩

/-- The batch that is stored last is the one that bodies in its number answer. -/
theorem expected?_storeBatch (s : Synchronizer) (peer : PeerId) {headers : List Header}
    {localBest : UInt64} (reached : Batch.reaches ⟨headers, s.now⟩ localBest = true) :
    (s.storeBatch peer headers).requests.expected? peer headers.length localBest =
      some ⟨headers, s.now⟩ := by
  cases headers with
  | nil => cases reached
  | cons first more =>
    have stored : (s.storeBatch peer (first :: more)).requests.batches.peek? peer =
        some ⟨first :: more, s.now⟩ := Recency.peek?_insert_self _ _ _
    rw [Requests.expected?, stored, Option.filter_some, reached]
    simp

theorem kept_of_far {first : Block} {more : List Block} {batch : Batch}
    (expected : s.requests.expected? peer bodies.length s.chain.bestNumber = some batch)
    (run : LongestRun batch.headers bodies (first :: more))
    (far : s.chain.bestNumber.toNat + 100 < first.number.toNat) :
    s.kept peer bodies = [.handedOver .pending (first :: more)] := by
  have route := BatchRoute.of_eq_pending_iff.2 far
  rw [kept, matched, Requests.take_of_expected expected]
  dsimp only
  rw [longestRun_iff.1 run]
  dsimp only
  rw [route]

theorem announced_iff_of_kept (announced : s.Announced)
    (kept : s.kept peer bodies = [.handedOver .pending blocks]) (displayId : String) :
    (s.deliverBodies peer displayId bodies).Announced ↔
      head (s.deliverBodies peer displayId bodies).chain = head s.chain := by
  rw [Announced, (deliverBodies_of_kept kept displayId).2.1, announced, Option.some.injEq, eq_comm]

/-- The head stays published as long as the chain gets no heavier. -/
theorem announced_iff_total (announced : s.Announced) (ledger : Chain.Ledger genesis s.chain)
    (kept : s.kept peer bodies = [.handedOver .pending blocks]) (displayId : String) :
    (s.deliverBodies peer displayId bodies).Announced ↔
      (s.deliverBodies peer displayId bodies).chain.total = s.chain.total := by
  rw [announced_iff_of_kept announced kept, (deliverBodies_of_kept kept displayId).1]
  exact ledger.head_eq_iff (Chain.steps_storeRange _ _)

theorem not_announced_of_heavier {first parent : Block} {more : List Block} {total : Difficulty}
    (announced : s.Announced) (ledger : Chain.Ledger genesis s.chain)
    (kept : s.kept peer bodies = [.handedOver .pending (first :: more)])
    (fits : s.chain.Fits first parent total)
    (heavier : s.chain.total < total + first.header.difficulty) (displayId : String) :
    ¬ (s.deliverBodies peer displayId bodies).Announced := by
  rw [announced_iff_total announced ledger kept, (deliverBodies_of_kept kept displayId).1]
  exact (BitVec.ne_of_lt (ledger.total_lt_storeRange fits heavier more)).symm

/-- An import queues no cycle for a network that is not ahead. -/
theorem importJobs_importBatch (behind : s.view.status.claim.totalDifficulty = 0)
    (displayId : String) (blocks : List Block) :
    (s.importBatch displayId blocks).2.importJobs = s.importJobs := by
  unfold importBatch
  dsimp only
  split
  · rename_i ahead
    have above : (s.intake.importBlocks blocks).1.chain.total <
        s.view.status.claim.totalDifficulty := ahead.2
    rw [behind] at above
    exact absurd above BitVec.not_lt_zero
  · rfl

/-- Wherever a heavy block has a line beside it that is more than a hundred blocks long, the next
block of the line can become the best one without a word. -/
theorem unannounced_of_overtakes {heavy far : Block} {line : List Block}
    (o : Chain.Overtakes genesis heavy line far) (root : far.body.root = far.header.txRoot)
    (short : far.body.encode.length < 2 ^ 64) (peer : PeerId) (displayId : String) :
    ∃ s, Reachable genesis s ∧ s.Announced ∧
      let t := s.deliverBodies peer displayId [far.body.encode]
      t.importJobs.jobs = [] ∧ ¬ t.Announced := by
  obtain ⟨start, begun⟩ : ∃ start : Synchronizer,
    start = .new {} (fun _ => .ok ()) (.history genesis {} []) 0 := ⟨_, rfl⟩
  have reachable : Reachable genesis start := begun ▸ .new _ _ _ _ _
  have splits := o.splits_import (sound_of_reachable reachable) (congrArg chain begun)
  rw [← chain_importBatch start displayId] at splits
  have idle : (start.importBatch displayId (heavy :: line)).2.importJobs = .new importQueue :=
    (importJobs_importBatch (begun ▸ rfl) _ _).trans (congrArg importJobs begun)
  have announced := announced_importBatch start displayId (heavy :: line)
  have imported := reachable.step (.importBatch _ displayId (heavy :: line))
  generalize (start.importBatch displayId (heavy :: line)).2 = before at *
  let s := before.storeBatch peer [far.header]
  have above : s.chain.bestNumber.toNat + 100 < far.number.toNat := o.far_above splits
  have reached : s.chain.bestNumber.toNat ≤ far.number.toNat + 200 := by omega
  have expected : s.requests.expected? peer [far.body.encode].length s.chain.bestNumber =
      some ⟨[far.header], before.now⟩ :=
    before.expected?_storeBatch peer (decide_eq_true reached)
  have run : LongestRun [far.header] [far.body.encode] [far] :=
    longestRun_cons_iff.2 ⟨Block.assemble?_encode root short, (longestRun_of_unpaired rfl).2 rfl⟩
  have kept := kept_of_far expected run above
  obtain ⟨tip, total, fits, heavier⟩ := o.fits splits
  refine ⟨s, imported.step (.storeBatch _ _ _), announced, ?_, ?_⟩
  · rw [(deliverBodies_of_kept kept displayId).2.2]
    exact congrArg Backlog.jobs idle
  · exact not_announced_of_heavier (s := s) announced splits.ledger kept fits heavier displayId

/-- Once the head is published it stays published, whatever work is done. Bodies leave it published
unless their blocks go to pending storage. If they do, nothing is said and no job is queued, so the
head is published afterwards exactly if it has not moved. In a state that a synchronizer gets into,
that is as long as the chain is no heavier. So it is not published any more if the first of the
blocks is connected and outweighs it, and it still is if no parent of theirs is stored. Where a
long line of blocks overtakes a heavy block, a synchronizer gets into states of both kinds. -/
theorem announced_after_bodies (peer : PeerId) (displayId : String) :
    (∀ s : Synchronizer, s.Announced → ∀ bodies,
      let t := s.deliverBodies peer displayId bodies
      (t.Announced → t.settle.Announced ∧ ∀ count, (runImports count t).Announced) ∧
      (s.kept peer bodies = [] → t.Announced) ∧
      ∀ blocks, s.kept peer bodies = [.handedOver .pending blocks] →
        t.chain = (s.chain.storeRange blocks).2 ∧ t.importJobs = s.importJobs ∧
        (t.Announced ↔ head t.chain = head s.chain) ∧
        ∀ genesis, Reachable genesis s →
          (t.Announced ↔ t.chain.total = s.chain.total) ∧
          (∀ first more parent total, blocks = first :: more → s.chain.Fits first parent total →
            s.chain.total < total + first.header.difficulty → ¬ t.Announced) ∧
          ((∀ block ∈ blocks, s.chain.blocks.get? block.parentHash = none) → t.Announced)) ∧
    ∀ genesis heavy line far, Chain.Overtakes genesis heavy line far →
      far.body.root = far.header.txRoot → far.body.encode.length < 2 ^ 64 →
      ∃ s, Reachable genesis s ∧ s.Announced ∧
        let t := s.deliverBodies peer displayId [far.body.encode]
        t.importJobs.jobs = [] ∧ ¬ t.Announced := by
  refine ⟨?_, fun genesis heavy line far o root short =>
    unannounced_of_overtakes o root short peer displayId⟩
  intro s announced bodies t
  refine ⟨?_, fun unkept => announced_of_unkept announced unkept displayId, ?_⟩
  · exact fun ready => ⟨persists_announced.settle ready, persists_announced.runImports ready⟩
  intro blocks kept
  obtain ⟨chain, -, jobs⟩ := deliverBodies_of_kept kept displayId
  refine ⟨chain, jobs, announced_iff_of_kept announced kept displayId, ?_⟩
  intro genesis reachable
  have ledger := (sound_of_reachable reachable).ledger
  have total_iff := announced_iff_total announced ledger kept displayId
  refine ⟨total_iff, ?_, ?_⟩
  · rintro first more parent total rfl fits heavier
    exact not_announced_of_heavier announced ledger kept fits heavier displayId
  · intro orphans
    obtain ⟨pending, pendingCount, stored⟩ := Chain.storeRange_of_idle (c := s.chain)
      fun block member => .inr (ledger.total_eq_none_iff.2 (orphans block member))
    rw [total_iff, chain, stored]
    rfl

end Synchronizer

namespace Chain.Fork

open Synchronizer

/-- A block whose parent nobody has sent, far above the genesis block. -/
def distant : Block := ⟨{ second.header with number := 500 }, ⟨[]⟩⟩

/-- It is kept for later, and the published head is still that of the chain. -/
theorem announced_after_distant_body :
    let before := ((Synchronizer.new {} (fun _ => .ok ()) (history start {} []) 0).importBatch
      "a" []).2
    let s := before.storeBatch ⟨1⟩ [distant.header]
    s.Announced ∧ Reachable start s ∧
      s.kept ⟨1⟩ [distant.body.encode] = [.handedOver .pending [distant]] ∧
      (s.deliverBodies ⟨1⟩ "a" [distant.body.encode]).Announced := by
  intro before s
  have announced : before.Announced := announced_importBatch _ "a" []
  have chain : before.chain = new start {} := chain_importBatch _ "a" []
  have reachable : Reachable start s :=
    .step (.step (.new _ _ _ _ _) (.importBatch _ _ _)) (.storeBatch _ _ _)
  clear_value before
  have low : s.chain.bestNumber = 0 := by
    change before.chain.bestNumber = 0
    rw [chain]
    exact (bestNumber_eq (ledger_new start {}).genesis_stored).trans rfl
  have short : distant.body.encode.length < 2 ^ 64 := by
    simp only [distant]
    decide
  have expected : s.requests.expected? ⟨1⟩ [distant.body.encode].length s.chain.bestNumber =
      some ⟨[distant.header], before.now⟩ :=
    before.expected?_storeBatch ⟨1⟩ (by rw [low]; rfl)
  have run : LongestRun [distant.header] [distant.body.encode] [distant] :=
    longestRun_cons_iff.2 ⟨Block.assemble?_encode rfl short, (longestRun_of_unpaired rfl).2 rfl⟩
  have kept := kept_of_far expected run (by rw [low]; decide)
  have orphan : s.chain.blocks.get? distant.parentHash = none := by
    change before.chain.blocks.get? first.hash = none
    rw [chain, blocks_new, if_neg]
    intro same
    exact absurd (eq_of_hash (by simp) (by simp) same) (by decide)
  obtain ⟨-, -, far⟩ := (announced_after_bodies ⟨1⟩ "a").1 s announced [distant.body.encode]
  obtain ⟨-, -, -, reached⟩ := far _ kept
  refine ⟨announced, reachable, kept, (reached start reachable).2.2 ?_⟩
  intro block listed
  rw [List.mem_singleton.1 listed]
  exact orphan

end Chain.Fork

end BlockSync
