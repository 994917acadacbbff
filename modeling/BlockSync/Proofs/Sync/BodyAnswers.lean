import BlockSync.Proofs.Sync.Exchange
import BlockSync.Proofs.Sync.Moves
import BlockSync.Proofs.Sync.Registers

/-! What bodies that a peer sends come to. Bodies match the batch of their peer if the local head
has not left it behind and the numbers agree; others are charged. The batch is used up whatever
the bodies are, and the blocks of the longest run of headers and bodies that fit go one way
together: to the import queue, or to pending storage if they start far above the head. A body that
fits no header ends the run, whatever follows it. -/
namespace BlockSync

namespace Requests

/-- The batch that bodies in such a number answer. -/
def expected? (r : Requests) (peer : PeerId) (count : Nat) (localBest : UInt64) : Option Batch :=
  (r.batches.peek? peer).filter fun batch =>
    batch.reaches localBest && batch.headers.length = count

variable {r : Requests} {peer : PeerId} {count : Nat} {localBest : UInt64}

theorem take_of_expected {batch : Batch} (expected : r.expected? peer count localBest = some batch) :
    r.take peer count localBest = (some batch.headers, r.clear peer) := by
  obtain ⟨found, fits⟩ := Option.filter_eq_some_iff.1 expected
  rw [Batch.reaches_eq, Bool.and_eq_true, decide_eq_true_eq, Bool.not_eq_true'] at fits
  exact Synchronizer.take_batch found fits.1 fits.2

/-- Without a match at most the batch of the peer goes, if it is left behind. -/
theorem take_of_unexpected (unexpected : r.expected? peer count localBest = none) :
    ∃ batches, r.take peer count localBest = (none, { r with batches }) ∧
      ∀ other, batches.peek? other =
        if peer = other then (r.batches.peek? peer).filter (·.reaches localBest)
        else r.batches.peek? other := by
  have unchanged (same : (r.batches.peek? peer).filter (·.reaches localBest) =
      r.batches.peek? peer) (other : PeerId) : r.batches.peek? other =
        if peer = other then (r.batches.peek? peer).filter (·.reaches localBest)
        else r.batches.peek? other := by
    split
    · rename_i alike
      rw [same, alike]
    · rfl
  unfold take
  cases found : r.batches.peek? peer with
  | none =>
    rw [found] at unchanged
    exact ⟨_, rfl, unchanged rfl⟩
  | some batch =>
    rw [found] at unchanged
    have reached := batch.reaches_eq localBest
    dsimp only
    cases expired : batch.isExpired localBest with
    | true =>
      rw [expired] at reached
      refine ⟨_, rfl, fun other => ?_⟩
      rw [Recency.peek?_erase, Option.filter_some, reached]
      rfl
    | false =>
      rw [expired] at reached
      have apart : batch.headers.length ≠ count := by
        intro same
        simp [expected?, found, reached, same] at unexpected
      rw [if_neg Bool.false_ne_true, if_pos apart]
      exact ⟨_, rfl, unchanged (by rw [Option.filter_some, reached]; rfl)⟩

end Requests

namespace Synchronizer

/-- The blocks that headers make with bodies, one by one, up to the first pair that makes none. -/
structure LongestRun (headers : List Header) (bodies : List Bytes) (blocks : List Block) :
    Prop where
  made : ((headers.zip bodies).take blocks.length).map (fun pair => Block.assemble? pair.1 pair.2) =
    blocks.map some
  ended : ∀ pair, (headers.zip bodies)[blocks.length]? = some pair →
    Block.assemble? pair.1 pair.2 = none

variable {headers : List Header} {bodies : List Bytes} {blocks : List Block}

theorem longestRun_of_unpaired (none : headers.zip bodies = []) :
    LongestRun headers bodies blocks ↔ [] = blocks := by
  constructor
  · rintro ⟨made, -⟩
    rw [none, List.take_nil, List.map_nil] at made
    exact (List.map_eq_nil_iff.1 made.symm).symm
  · rintro rfl
    exact ⟨rfl, by simp [none]⟩

theorem longestRun_cons_iff {header : Header} {body : Bytes} {block : Block} :
    LongestRun (header :: headers) (body :: bodies) (block :: blocks) ↔
      Block.assemble? header body = some block ∧ LongestRun headers bodies blocks := by
  constructor
  · rintro ⟨made, ended⟩
    obtain ⟨first, rest⟩ := List.cons.inj made
    exact ⟨first, rest, ended⟩
  · rintro ⟨first, rest, ended⟩
    exact ⟨congrArg₂ List.cons first rest, ended⟩

theorem longestRun_nil_iff {header : Header} {body : Bytes} :
    LongestRun (header :: headers) (body :: bodies) [] ↔ Block.assemble? header body = none := by
  constructor
  · exact fun run => run.ended (header, body) rfl
  · intro unmade
    refine ⟨rfl, ?_⟩
    rintro pair (_ | _)
    exact unmade

theorem longestRun_iff : LongestRun headers bodies blocks ↔ assemble headers bodies = blocks := by
  induction headers, bodies using assemble.induct generalizing blocks with
  | case1 header headers body bodies block made ih =>
    rw [assemble, made]
    cases blocks with
    | nil => simp [longestRun_nil_iff, made]
    | cons first more => simp [longestRun_cons_iff, made, ih]
  | case2 header headers body bodies unmade =>
    rw [assemble, unmade]
    cases blocks with
    | nil => simp [longestRun_nil_iff, unmade]
    | cons first more => simp [longestRun_cons_iff, unmade]
  | case3 headers bodies short =>
    have unpaired : headers.zip bodies = [] := by
      cases headers with
      | nil => rfl
      | cons header headers =>
        cases bodies with
        | nil => rfl
        | cons body bodies => exact absurd rfl (short header headers body bodies rfl)
    have unmade : assemble headers bodies = [] := by
      unfold assemble
      split
      · exact absurd rfl (short _ _ _ _ rfl)
      · rfl
    rw [longestRun_of_unpaired unpaired, unmade]

/-- Bodies that answer no batch cost the peer one error, and its batch goes if it is left
behind. -/
structure Disowns (s t : Synchronizer) (peer : PeerId) (displayId : String) : Prop where
  effects : t.effects = s.effects ++ [.charge peer displayId]
  batches : ∀ other, t.requests.batches.peek? other =
    if peer = other then
      (s.requests.batches.peek? peer).filter (·.reaches s.chain.bestNumber)
    else s.requests.batches.peek? other
  elsewhere : { t with
    requests := { t.requests with batches := s.requests.batches }
    statistics := s.statistics
    effects := s.effects } = s

/-- The batch of the peer goes, and the chain at most changes besides. -/
structure UsesUp (s t : Synchronizer) (peer : PeerId) : Prop where
  batches : ∀ other, t.requests.batches.peek? other =
    if peer = other then none else s.requests.batches.peek? other
  elsewhere : { t with
    requests := { t.requests with batches := s.requests.batches }
    statistics := s.statistics
    intake := { t.intake with chain := s.chain } } = s

/-- Where blocks go together: nowhere without a first, or to pending storage, or in one job. -/
inductive Routed (c : Chain) (displayId : String) : List Block → Option ImportJob → Chain → Prop
  | nowhere : Routed c displayId [] none c
  | stored {first : Block} {more : List Block}
      (far : c.bestNumber.toNat + 100 < first.number.toNat) :
      Routed c displayId (first :: more) none (c.storeRange (first :: more)).2
  | handed {first : Block} {more : List Block}
      (near : first.number.toNat ≤ c.bestNumber.toNat + 100) :
      Routed c displayId (first :: more) (some (.batch displayId (first :: more))) c

variable {s t : Synchronizer} {peer : PeerId} {displayId : String}

theorem UsesUp.importJobs_eq (used : s.UsesUp t peer) : t.importJobs = s.importJobs := by
  have same := congrArg importJobs used.elsewhere
  exact same

theorem Routed.queued_of_near {c d : Chain} {first : Block} {more : List Block}
    {job : Option ImportJob} (routed : Routed c displayId (first :: more) job d)
    (near : first.number.toNat ≤ c.bestNumber.toNat + 100) :
    job = some (.batch displayId (first :: more)) := by
  cases routed with
  | stored far => omega
  | handed => rfl

theorem disowns_takeBodies (some_came : bodies ≠ [])
    (unexpected : s.requests.expected? peer bodies.length s.chain.bestNumber = none) :
    (s.takeBodies peer displayId bodies).1 = none ∧
      s.Disowns (s.takeBodies peer displayId bodies).2 peer displayId := by
  obtain ⟨batches, kept, left⟩ := Requests.take_of_unexpected unexpected
  have cases := s.takeBodies_cases peer displayId bodies
  generalize s.takeBodies peer displayId bodies = answer at cases ⊢
  cases cases with
  | empty none_came => exact absurd none_came some_came
  | unexpected _ taken =>
    cases kept.symm.trans taken
    exact ⟨rfl, rfl, left, rfl⟩
  | unfit _ taken | stored _ taken | given _ taken => cases kept.symm.trans taken

theorem usesUp_takeBodies (some_came : bodies ≠ []) {batch : Batch}
    (expected : s.requests.expected? peer bodies.length s.chain.bestNumber = some batch) :
    let (job, t) := s.takeBodies peer displayId bodies
    s.UsesUp t peer ∧ Routed s.chain displayId (assemble batch.headers bodies) job t.chain := by
  have used := Requests.take_of_expected expected
  have left := Recency.peek?_erase s.requests.batches peer
  have cases := s.takeBodies_cases peer displayId bodies
  generalize s.takeBodies peer displayId bodies = answer at cases ⊢
  cases cases with
  | empty none_came => exact absurd none_came some_came
  | unexpected _ taken => cases used.symm.trans taken
  | unfit _ taken unfit =>
    cases used.symm.trans taken
    rw [unfit]
    exact ⟨⟨left, rfl⟩, .nowhere⟩
  | stored _ taken fit far =>
    cases used.symm.trans taken
    rw [fit]
    exact ⟨⟨left, rfl⟩, .stored (BatchRoute.of_eq_pending_iff.1 far)⟩
  | given _ taken fit near =>
    cases used.symm.trans taken
    rw [fit]
    exact ⟨⟨left, rfl⟩, .handed (BatchRoute.of_eq_intake_iff.1 near)⟩

/-- A job waits behind the others, unless there is no room for it even after a wait. -/
theorem submit_spec (s : Synchronizer) (job : ImportJob) :
    let waited := if s.importJobs.accepting && s.importJobs.isFull then s.settle else s
    (waited.importJobs.HasRoom →
      (s.submit job).importJobs =
          { waited.importJobs with jobs := waited.importJobs.jobs ++ [job] } ∧
        { s.submit job with importJobs := waited.importJobs, turns := waited.turns } = waited) ∧
    (¬ waited.importJobs.HasRoom → s.submit job = waited) := by
  intro waited
  constructor
  · intro room
    obtain ⟨turns, woken⟩ := wake_eq { waited with
      importJobs := { waited.importJobs with jobs := waited.importJobs.jobs ++ [job] } } .imports
    have submitted : s.submit job = { waited with
        importJobs := { waited.importJobs with jobs := waited.importJobs.jobs ++ [job] }
        turns } := by
      unfold submit
      dsimp only
      rw [Backlog.push?_of_room room]
      exact woken
    rw [submitted]
    exact ⟨rfl, rfl⟩
  · intro full
    unfold submit
    dsimp only
    rw [Backlog.push?_of_full full]

/-- Bodies come to one of three things. None at all change nothing. Those that answer no batch,
for want of one that the head has not left behind and that has as many headers, are charged once.
Others use up the batch of their peer alone, and of the pairs of header and body those before the
first that makes no block go, in order, nowhere if there are none, to pending storage if the first
is more than a hundred above the head, and else into the one job that is queued for import. -/
theorem answer_of_bodies (s : Synchronizer) (peer : PeerId) (displayId : String)
    (bodies : List Bytes) :
    let job := (s.takeBodies peer displayId bodies).1
    let t := (s.takeBodies peer displayId bodies).2
    let u := s.deliverBodies peer displayId bodies
    let expected := s.requests.expected? peer bodies.length s.chain.bestNumber
    (bodies = [] → job = none ∧ { t with statistics := s.statistics } = s) ∧
    (bodies ≠ [] → expected = none → job = none ∧ s.Disowns t peer displayId) ∧
    (bodies ≠ [] → ∀ batch, expected = some batch → s.UsesUp t peer ∧
      ∃ blocks, LongestRun batch.headers bodies blocks ∧
        Routed s.chain displayId blocks job t.chain) ∧
    (job = none → u = t) ∧
    ∀ queued, job = some queued →
      let waited := if t.importJobs.accepting && t.importJobs.isFull then t.settle else t
      (waited.importJobs.HasRoom →
        u.importJobs = { waited.importJobs with jobs := waited.importJobs.jobs ++ [queued] } ∧
          { u with importJobs := waited.importJobs, turns := waited.turns } = waited) ∧
      (¬ waited.importJobs.HasRoom → u = waited) := by
  intro job t u expected
  have unqueued (nothing : job = none) : u = t := by
    have taken : s.takeBodies peer displayId bodies = (none, t) := Prod.ext nothing rfl
    change deliverBodies s peer displayId bodies = t
    rw [deliverBodies, taken]
  have submitted {queued : ImportJob} (given : job = some queued) : u = t.submit queued := by
    have taken : s.takeBodies peer displayId bodies = (some queued, t) := Prod.ext given rfl
    change deliverBodies s peer displayId bodies = _
    rw [deliverBodies, taken]
  refine ⟨?_, disowns_takeBodies, ?_, unqueued, ?_⟩
  · intro none_came
    subst none_came
    exact ⟨rfl, rfl⟩
  · intro some_came batch answered
    obtain ⟨used, routed⟩ := usesUp_takeBodies some_came answered
    exact ⟨used, _, longestRun_iff.2 rfl, routed⟩
  · intro queued given
    rw [submitted given]
    exact submit_spec t queued

/-- The second body is of no block, so only the first block is queued for import. One body is too
few for the batch of two. -/
theorem answer_of_broken_body :
    let headers := [Chain.Fork.first.header, Chain.Fork.second.header]
    let s := (Synchronizer.new {} (fun _ => .ok ()) (.history Chain.Fork.start {} []) 0).storeBatch
      ⟨1⟩ headers
    let body := Chain.Fork.first.body.encode
    (s.takeBodies ⟨1⟩ "a" [body, []]).1 = some (.batch "a" [Chain.Fork.first]) ∧
      (s.deliverBodies ⟨1⟩ "a" [body, []]).importJobs.jobs = [.batch "a" [Chain.Fork.first]] ∧
      s.Disowns (s.takeBodies ⟨1⟩ "a" [body]).2 ⟨1⟩ "a" := by
  intro headers s body
  have low : s.chain.bestNumber = 0 :=
    (Chain.bestNumber_eq (Chain.ledger_new Chain.Fork.start {}).genesis_stored).trans rfl
  have short : Chain.Fork.first.body.encode.length < 2 ^ 64 := by
    simp only [Chain.Fork.first, Chain.Fork.child]
    decide
  have run : LongestRun headers [body, []] [Chain.Fork.first] :=
    longestRun_cons_iff.2 ⟨Block.assemble?_encode rfl short, longestRun_nil_iff.2 rfl⟩
  have expected : s.requests.expected? ⟨1⟩ [body, []].length s.chain.bestNumber =
      some ⟨headers, 0⟩ := by
    rw [low]
    rfl
  have unexpected : s.requests.expected? ⟨1⟩ [body].length s.chain.bestNumber = none := by
    rw [low]
    rfl
  have idle : s.importJobs = .new importQueue := rfl
  clear_value s
  obtain ⟨-, -, answer, -, queued⟩ := answer_of_bodies s ⟨1⟩ "a" [body, []]
  obtain ⟨-, charged, -⟩ := answer_of_bodies s ⟨1⟩ "a" [body]
  obtain ⟨used, blocks, found, routed⟩ := answer (List.cons_ne_nil _ _) _ expected
  have same : blocks = [Chain.Fork.first] := (longestRun_iff.1 found).symm.trans (longestRun_iff.1 run)
  rw [same] at routed
  have job : (s.takeBodies ⟨1⟩ "a" [body, []]).1 = some (.batch "a" [Chain.Fork.first]) := by
    refine routed.queued_of_near ?_
    rw [low]
    decide
  have empty : (s.takeBodies ⟨1⟩ "a" [body, []]).2.importJobs = .new importQueue :=
    used.importJobs_eq.trans idle
  have taken := queued _ job
  dsimp only at taken
  rw [empty, if_neg (by decide), empty] at taken
  exact ⟨job, congrArg Backlog.jobs (taken.1 ⟨rfl, by decide⟩).1,
    (charged (List.cons_ne_nil _ _) unexpected).2⟩

end Synchronizer

end BlockSync
