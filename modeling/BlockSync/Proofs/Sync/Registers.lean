import BlockSync.Proofs.Recency
import BlockSync.Sync.Requests

/-! What is noted of one peer is a register of its own: the batch that its bodies are awaited
for, and the time of the request that it has not answered. As long as the tables have room for
all peers, nothing that is done for other peers is seen there, but for the pruning of what has
fallen behind. So a batch goes to the peer that it is of, and only once. -/
namespace BlockSync

/-- A register holds what was written last, if all that came since kept it. -/
theorem foldl_eq_some_iff {α δ : Type} {f : Option α → δ → Option α} {a : α}
    (keeps : ∀ held d, f held d = some a → (∀ other, f other d = some a) ∨ held = some a)
    {log : List δ} :
    log.foldl f none = some a ↔ ∃ front d back, log = front ++ d :: back ∧ f none d = some a ∧
      ∀ e ∈ back, f (some a) e = some a := by
  constructor
  -- from the end of the log, so that the last write is found first
  · induction log using List.reverseRecOn with
    | nil => exact fun held => nomatch held
    | append_singleton log last ih =>
      intro held
      rw [List.foldl_append, List.foldl_cons, List.foldl_nil] at held
      rcases keeps _ _ held with sets | before
      · exact ⟨log, last, [], rfl, sets none, fun _ member => absurd member List.not_mem_nil⟩
      · obtain ⟨front, d, back, rfl, written, kept⟩ := ih before
        rw [before] at held
        refine ⟨front, d, back ++ [last], by simp, written, ?_⟩
        rintro e member
        rcases List.mem_append.1 member with old | new
        · exact kept e old
        · rwa [List.mem_singleton.1 new]
  · rintro ⟨front, d, back, rfl, written, kept⟩
    have sets := (keeps _ _ written).resolve_right (fun none => nomatch none)
    rw [List.foldl_append, List.foldl_cons, sets]
    clear written sets
    induction back with
    | nil => rfl
    | cons e rest ih =>
      rw [List.foldl_cons, kept e List.mem_cons_self]
      exact ih fun e member => kept e (List.mem_cons_of_mem _ member)

/-- The local head is at most so far above the first header. -/
def Batch.reaches (b : Batch) (localBest : UInt64) : Bool :=
  b.headers.head?.any fun first => localBest.toNat ≤ first.number.toNat + 200

theorem Batch.reaches_eq (b : Batch) (localBest : UInt64) :
    b.reaches localBest = !b.isExpired localBest := by
  unfold reaches isExpired maxBehind
  cases b.headers with
  | nil => rfl
  | cons first more => simp only [List.head?_cons, Option.any_some, ← decide_not, Nat.not_lt]

namespace Requests

inductive Operation where
  | store (peer : PeerId) (headers : List Header) (now : Instant)
  | take (peer : PeerId) (count : Nat) (localBest : UInt64)
  | clear (peer : PeerId)
  | prune (localBest : UInt64)
  | noteAsked (peer : PeerId) (now : Instant)
  | noteAnswered (peer : PeerId)
  deriving DecidableEq, Repr

namespace Operation

def peer? : Operation → Option PeerId
  | store peer _ _ | take peer _ _ | clear peer | noteAsked peer _ | noteAnswered peer => some peer
  | prune _ => none

/-- The peer that a note is made of. -/
def noted? : Operation → Option PeerId
  | store peer _ _ | noteAsked peer _ => some peer
  | _ => none

/-- What becomes of the batch in the register of a peer. -/
def write (peer : PeerId) (held : Option Batch) : Operation → Option Batch
  | store target headers now => if target = peer ∧ headers ≠ [] then some ⟨headers, now⟩ else held
  | take target count localBest =>
    if target = peer then
      held.filter fun batch => batch.reaches localBest && batch.headers.length ≠ count
    else held
  | clear target => if target = peer then none else held
  | prune localBest => held.filter (·.reaches localBest)
  | noteAsked .. | noteAnswered _ => held

/-- What becomes of the time of the request that a peer has not answered. -/
def note (peer : PeerId) (owed : Option Instant) : Operation → Option Instant
  | noteAsked target now => if target = peer then some now else owed
  | noteAnswered target => if target = peer then none else owed
  | _ => owed

/-- What is given back of the batch in the register of a peer. -/
def read (peer : PeerId) (held : Option Batch) : Operation → Option (List Header)
  | take target count localBest =>
    if target = peer then
      (held.filter fun batch => batch.reaches localBest && batch.headers.length = count).map
        (·.headers)
    else none
  | _ => none

end Operation

def perform (r : Requests) : Operation → Requests
  | .store peer headers now => r.store peer headers now
  | .take peer count localBest => (r.take peer count localBest).2
  | .clear peer => r.clear peer
  | .prune localBest => (r.prune localBest).2
  | .noteAsked peer now => r.noteAsked peer now
  | .noteAnswered peer => r.noteAnswered peer

def performAll (r : Requests) (operations : List Operation) : Requests :=
  operations.foldl perform r

def run (capacity : Nat) (operations : List Operation) : Requests :=
  (Requests.new capacity).performAll operations

@[simp] theorem performAll_append (r : Requests) (operations more : List Operation) :
    r.performAll (operations ++ more) = (r.performAll operations).performAll more :=
  List.foldl_append

theorem run_append (capacity : Nat) (operations more : List Operation) :
    run capacity (operations ++ more) = (run capacity operations).performAll more :=
  performAll_append _ _ _

def held (peer : PeerId) (operations : List Operation) : Option Batch :=
  operations.foldl (Operation.write peer) none

def owed (peer : PeerId) (operations : List Operation) : Option Instant :=
  operations.foldl (Operation.note peer) none

/-- Both tables have room for some peers and hold what the registers of each say. -/
structure Tracks (peers : Finset PeerId) (r : Requests) (batch : PeerId → Option Batch)
    (sent : PeerId → Option Instant) : Prop where
  batches : r.batches.Maps peers batch
  asked : r.asked.Maps peers sent

variable {peers : Finset PeerId} {r : Requests} {batch : PeerId → Option Batch}
  {sent : PeerId → Option Instant} {capacity : Nat} {operations : List Operation} {peer : PeerId}

theorem tracks_new (room : peers.card ≤ capacity) :
    Tracks peers (.new capacity) (fun _ => none) fun _ => none :=
  ⟨.new room, .new room⟩

theorem Tracks.take (h : Tracks peers r batch sent) (peer : PeerId) (count : Nat)
    (localBest : UInt64) :
    (r.take peer count localBest).1 = (Operation.take peer count localBest).read peer (batch peer) ∧
      Tracks peers (r.take peer count localBest).2
        (fun other => (Operation.take peer count localBest).write other (batch other)) sent := by
  have found := h.batches.value peer
  have agree {next : PeerId → Option Batch}
      (own : (Operation.take peer count localBest).write peer (batch peer) = next peer)
      (others : ∀ other, peer ≠ other → batch other = next other) (other : PeerId) :
      (Operation.take peer count localBest).write other (batch other) = next other := by
    by_cases same : peer = other
    · rw [← same, own]
    · rw [← others other same, Operation.write, if_neg same]
  have gone : ∀ other, peer ≠ other → batch other = if peer = other then none else batch other :=
    fun other apart => (if_neg apart).symm
  unfold Requests.take
  split
  · rename_i absent
    rw [absent] at found
    refine ⟨?_, h.batches.congr (agree ?_ fun _ _ => rfl), h.asked⟩
    · simp [Operation.read, ← found]
    · simp [Operation.write, ← found]
  · rename_i kept present
    rw [present] at found
    have reached := kept.reaches_eq localBest
    split
    · rename_i expired
      rw [expired, Bool.not_true] at reached
      refine ⟨?_, (h.batches.erase peer).congr (agree ?_ gone), h.asked⟩
      · simp [Operation.read, ← found, reached]
      · simp [Operation.write, ← found, reached]
    · rename_i valid
      rw [Bool.eq_false_iff.2 valid, Bool.not_false] at reached
      split
      · rename_i wrong
        refine ⟨?_, h.batches.congr (agree ?_ fun _ _ => rfl), h.asked⟩
        · simp [Operation.read, ← found, wrong]
        · simp [Operation.write, ← found, reached, wrong]
      · rename_i right
        rw [ne_eq, Classical.not_not] at right
        refine ⟨?_, (h.batches.erase peer).congr (agree ?_ gone), h.asked⟩
        · simp [Operation.read, ← found, reached, right]
        · simp [Operation.write, ← found, right]

theorem Tracks.store (h : Tracks peers r batch sent) {peer : PeerId} (inside : peer ∈ peers)
    (headers : List Header) (now : Instant) :
    Tracks peers (r.store peer headers now)
      (fun other => (Operation.store peer headers now).write other (batch other)) sent := by
  unfold Requests.store
  split
  · rename_i empty
    refine ⟨h.batches.congr fun other => ?_, h.asked⟩
    simp [Operation.write, List.isEmpty_iff.1 empty]
  · rename_i some_headers
    refine ⟨(h.batches.insert inside ⟨headers, now⟩).congr fun other => ?_, h.asked⟩
    simp [Operation.write, List.isEmpty_iff.not.1 some_headers]

theorem Tracks.perform (h : Tracks peers r batch sent) (operation : Operation)
    (inside : ∀ peer ∈ operation.noted?, peer ∈ peers) :
    Tracks peers (r.perform operation) (fun peer => operation.write peer (batch peer))
      fun peer => operation.note peer (sent peer) := by
  cases operation with
  | store peer headers now => exact h.store (inside peer rfl) headers now
  | take peer count localBest => exact (h.take peer count localBest).2
  | clear peer => exact ⟨h.batches.erase peer, h.asked⟩
  | prune localBest =>
    refine ⟨(h.batches.retain fun _ batch => !batch.isExpired localBest).congr fun other => ?_,
      h.asked⟩
    simp only [Operation.write, Batch.reaches_eq]
  | noteAsked peer now => exact ⟨h.batches, h.asked.insert (inside peer rfl) now⟩
  | noteAnswered peer => exact ⟨h.batches, h.asked.erase peer⟩

theorem Tracks.performAll (h : Tracks peers r batch sent)
    (inside : ∀ operation ∈ operations, ∀ peer ∈ operation.noted?, peer ∈ peers) :
    Tracks peers (r.performAll operations)
      (fun peer => operations.foldl (Operation.write peer) (batch peer))
      fun peer => operations.foldl (Operation.note peer) (sent peer) := by
  induction operations generalizing r batch sent with
  | nil => exact h
  | cons first rest ih =>
    have next := h.perform first (inside first List.mem_cons_self)
    exact ih next fun operation member => inside operation (List.mem_cons_of_mem _ member)

theorem tracks_run (room : peers.card ≤ capacity)
    (inside : ∀ operation ∈ operations, ∀ peer ∈ operation.noted?, peer ∈ peers) :
    Tracks peers (run capacity operations) (fun peer => held peer operations)
      fun peer => owed peer operations :=
  (tracks_new room).performAll inside

/-- The peer that an operation is about, unless it is about all. -/
def Operation.concerns (peer : PeerId) (operation : Operation) : Bool :=
  operation.peer?.all fun target => target = peer

theorem Operation.write_of_not_concerns {operation : Operation}
    (other : operation.concerns peer = false) (held : Option Batch) :
    operation.write peer held = held := by
  cases operation <;> simp_all [concerns, peer?, write]

/-- What is done for other peers leaves no trace in the register of a peer. -/
theorem held_filter (peer : PeerId) (operations : List Operation) :
    held peer (operations.filter (Operation.concerns peer)) = held peer operations := by
  unfold held
  generalize (none : Option Batch) = first
  induction operations generalizing first with
  | nil => rfl
  | cons operation rest ih =>
    cases own : operation.concerns peer with
    | true => rw [List.filter_cons_of_pos own, List.foldl_cons, List.foldl_cons, ih]
    | false =>
      rw [List.filter_cons_of_neg (Bool.eq_false_iff.1 own), List.foldl_cons,
        Operation.write_of_not_concerns own, ih]

theorem Operation.write_eq_some {operation : Operation} {held : Option Batch} {batch : Batch}
    (written : operation.write peer held = some batch) :
    operation = .store peer batch.headers batch.since ∧ batch.headers ≠ [] ∨ held = some batch := by
  cases operation with
  | store target headers now =>
    simp only [write] at written
    split at written
    · rename_i stored
      cases written
      exact .inl ⟨by rw [stored.1], stored.2⟩
    · exact .inr written
  | take target count localBest =>
    simp only [write] at written
    split at written
    · exact .inr (Option.filter_eq_some_iff.1 written).1
    · exact .inr written
  | clear target =>
    simp only [write] at written
    split at written
    · cases written
    · exact .inr written
  | prune localBest => exact .inr (Option.filter_eq_some_iff.1 written).1
  | noteAsked | noteAnswered => exact .inr written

theorem Operation.write_store_self {batch : Batch} (some_headers : batch.headers ≠ [])
    (held : Option Batch) :
    (Operation.store peer batch.headers batch.since).write peer held = some batch :=
  if_pos ⟨rfl, some_headers⟩

/-- A batch is held from the time it was stored, if nothing that came since ended it. -/
theorem held_eq_some_iff {batch : Batch} :
    held peer operations = some batch ↔ ∃ front back,
      operations = front ++ .store peer batch.headers batch.since :: back ∧ batch.headers ≠ [] ∧
        ∀ operation ∈ back, operation.write peer (some batch) = some batch := by
  rw [held, foldl_eq_some_iff]
  · constructor
    · rintro ⟨front, operation, back, rfl, written, kept⟩
      obtain ⟨rfl, some_headers⟩ := (Operation.write_eq_some written).resolve_right
        (Option.some_ne_none _).symm
      exact ⟨front, back, rfl, some_headers, kept⟩
    · rintro ⟨front, back, rfl, some_headers, kept⟩
      exact ⟨front, _, back, rfl, Operation.write_store_self some_headers none, kept⟩
  · intro held operation written
    refine (Operation.write_eq_some written).imp_left ?_
    rintro ⟨rfl, some_headers⟩
    exact Operation.write_store_self some_headers

/-- What the operation at a place of a run gives back, and whose it is. -/
def returnedAt (capacity : Nat) (operations : List Operation) (place : Nat) :
    Option (PeerId × List Header) :=
  match operations[place]? with
  | some (.take peer count localBest) =>
    ((run capacity (operations.take place)).take peer count localBest).1.map (peer, ·)
  | _ => none

theorem Operation.write_of_read {operation : Operation} {held : Option Batch}
    {headers : List Header} (given : operation.read peer held = some headers) :
    operation.write peer held = none := by
  cases operation with
  | take target count localBest =>
    simp only [read] at given
    split at given
    · rename_i own
      obtain ⟨batch, fits, -⟩ := Option.map_eq_some_iff.1 given
      obtain ⟨rfl, fits⟩ := Option.filter_eq_some_iff.1 fits
      simp_all [write]
    · cases given
  | _ => cases given

theorem Operation.eq_of_read {operation : Operation} {batch : Batch} {headers : List Header}
    (given : operation.read peer (some batch) = some headers) : headers = batch.headers := by
  cases operation with
  | take target count localBest =>
    simp only [read] at given
    split at given
    · obtain ⟨other, fits, rfl⟩ := Option.map_eq_some_iff.1 given
      cases (Option.filter_eq_some_iff.1 fits).1
      rfl
    · cases given
  | _ => cases given

theorem read_of_returnedAt (few : peers.card ≤ capacity)
    (inside : ∀ operation ∈ operations, ∀ peer ∈ operation.noted?, peer ∈ peers)
    {place : Nat} {headers : List Header}
    (returned : returnedAt capacity operations place = some (peer, headers)) :
    ∃ operation, operations[place]? = some operation ∧
      operation.read peer (held peer (operations.take place)) = some headers := by
  unfold returnedAt at returned
  split at returned
  · rename_i target count localBest found
    obtain ⟨given, taken, same⟩ := Option.map_eq_some_iff.1 returned
    cases same
    have tracks := tracks_run few fun operation member =>
      inside operation (List.mem_of_mem_take (i := place) member)
    exact ⟨_, found, (tracks.take peer count localBest).1.symm.trans taken⟩
  · cases returned

/-- A batch that is given back was stored for that peer, and was not given back in between. -/
theorem source_of_returnedAt (few : peers.card ≤ capacity)
    (inside : ∀ operation ∈ operations, ∀ peer ∈ operation.noted?, peer ∈ peers)
    {place : Nat} {headers : List Header}
    (returned : returnedAt capacity operations place = some (peer, headers)) :
    ∃ source < place, (∃ now, operations[source]? = some (.store peer headers now)) ∧
      ∀ between, source < between → between < place →
        ∀ others, returnedAt capacity operations between ≠ some (peer, others) := by
  obtain ⟨operation, found, given⟩ := read_of_returnedAt few inside returned
  cases before : held peer (operations.take place) with
  | none =>
    rw [before] at given
    cases operation <;> simp [Operation.read] at given
  | some batch =>
    rw [before] at given
    have same := Operation.eq_of_read given
    obtain ⟨front, back, split, some_headers, kept⟩ := held_eq_some_iff.1 before
    have listed : operations = front ++ .store peer batch.headers batch.since :: back ++
        operations.drop place := by rw [← split, List.take_append_drop]
    have long : place = front.length + (back.length + 1) := by
      have inRange := (List.getElem?_eq_some_iff.1 found).1
      have lengths := congrArg List.length split
      rw [List.length_take_of_le (Nat.le_of_lt inRange), List.length_append, List.length_cons]
        at lengths
      exact lengths
    refine ⟨front.length, by omega, ⟨batch.since, ?_⟩, ?_⟩
    · rw [listed, same, List.append_assoc, List.getElem?_append_right (Nat.le_refl _), Nat.sub_self]
      rfl
    · intro between after early others again
      obtain ⟨next, there, read⟩ := read_of_returnedAt few inside again
      obtain ⟨gap, rfl⟩ := Nat.exists_eq_add_of_lt after
      have within : gap < back.length := by omega
      -- the batch was still in the register, and reading it would have ended it
      have until_then : operations.take (front.length + gap + 1) =
          front ++ .store peer batch.headers batch.since :: back.take gap := by
        rw [listed, List.append_assoc, Nat.add_assoc, List.take_length_add_append,
          List.cons_append, List.take_succ_cons,
          List.take_append_of_le_length (Nat.le_of_lt within)]
      have still : held peer (operations.take (front.length + gap + 1)) = some batch :=
        held_eq_some_iff.2 ⟨front, back.take gap, until_then, some_headers,
          fun operation member => kept operation (List.mem_of_mem_take member)⟩
      have member : next ∈ back := by
        rw [listed, List.append_assoc, Nat.add_assoc, List.getElem?_append_right (by omega),
          Nat.add_sub_cancel_left, List.cons_append, List.getElem?_cons_succ,
          List.getElem?_append_left within] at there
        exact List.mem_of_getElem? there
      rw [still] at read
      have ended := Operation.write_of_read read
      rw [kept next member] at ended
      cases ended

theorem one_source_for_each (few : peers.card ≤ capacity)
    (inside : ∀ operation ∈ operations, ∀ peer ∈ operation.noted?, peer ∈ peers) :
    ∃ source : Nat → Nat,
      (∀ place peer headers, returnedAt capacity operations place = some (peer, headers) →
        source place < place ∧
          ∃ now, operations[source place]? = some (.store peer headers now)) ∧
      ∀ place later, (returnedAt capacity operations place).isSome →
        (returnedAt capacity operations later).isSome → source place = source later →
          place = later := by
  have sources (place : Nat) : ∃ source, ∀ peer headers,
      returnedAt capacity operations place = some (peer, headers) →
        source < place ∧ (∃ now, operations[source]? = some (.store peer headers now)) ∧
          ∀ between, source < between → between < place →
            ∀ others, returnedAt capacity operations between ≠ some (peer, others) := by
    cases returned : returnedAt capacity operations place with
    | none => exact ⟨0, nofun⟩
    | some given =>
      obtain ⟨source, early, stored, last⟩ := source_of_returnedAt few inside returned
      refine ⟨source, ?_⟩
      rintro peer headers same
      cases same
      exact ⟨early, stored, last⟩
  choose source spec using sources
  have apart {place later : Nat} (first : (returnedAt capacity operations place).isSome)
      (second : (returnedAt capacity operations later).isSome) (before : place < later) :
      source place ≠ source later := by
    intro same
    obtain ⟨⟨peer, headers⟩, returned⟩ := Option.isSome_iff_exists.1 first
    obtain ⟨⟨other, more⟩, again⟩ := Option.isSome_iff_exists.1 second
    obtain ⟨early, ⟨now, stored⟩, -⟩ := spec place peer headers returned
    obtain ⟨-, ⟨since, kept⟩, last⟩ := spec later other more again
    rw [same] at stored
    cases stored.symm.trans kept
    exact last place (same ▸ early) before _ returned
  refine ⟨source, fun place peer headers returned => ?_, fun place later first second same => ?_⟩
  · exact ⟨(spec place peer headers returned).1, (spec place peer headers returned).2.1⟩
  · rcases Nat.lt_trichotomy place later with before | equal | after
    · exact absurd same (apart first second before)
    · exact equal
    · exact absurd same.symm (apart second first after)

theorem Tracks.isWaiting (h : Tracks peers r batch sent) (peer : PeerId) (localBest : UInt64) :
    r.isWaiting peer localBest = (batch peer).any (·.reaches localBest) := by
  rw [Requests.isWaiting, h.batches.value peer]
  simp only [Batch.reaches_eq]

theorem Tracks.size_eq (h : Tracks peers r batch sent) :
    r.size = {peer | (batch peer).isSome}.ncard :=
  h.batches.size_eq

theorem Tracks.prune (h : Tracks peers r batch sent) (localBest : UInt64) :
    (r.prune localBest).1 + (r.prune localBest).2.size = r.size ∧
      (r.prune localBest).2.size =
        {peer | (r.prune localBest).2.isWaiting peer localBest}.ncard := by
  have pruned : Tracks peers (r.prune localBest).2 _ _ := h.perform (.prune localBest) nofun
  have fewer : (r.prune localBest).2.size ≤ r.size := List.length_filter_le _ _
  refine ⟨Nat.sub_add_cancel fewer, pruned.size_eq.trans (congrArg Set.ncard ?_)⟩
  ext peer
  simp only [Set.mem_ofPred_eq, pruned.isWaiting, Operation.write, Option.any_filter]
  cases batch peer <;> simp [Option.filter]

theorem since_lt_timeout {now earlier : Instant} :
    now.since earlier < timeout ↔ now < earlier + timeout := by
  have shift (later earlier duration : Nat) (some_time : 0 < duration) :
      later - earlier < duration ↔ later < earlier + duration := by omega
  exact shift now earlier timeout (by decide)

/-- A peer may be asked if its registers hold nothing that is younger than the timeout, but for
an expired batch. -/
theorem Tracks.mayAsk_iff {now : Instant} {localBest : UInt64} (h : Tracks peers r batch sent) :
    r.mayAsk peer now localBest = true ↔
      (∀ time, sent peer = some time → time + timeout ≤ now) ∧
        ∀ b, batch peer = some b → b.reaches localBest = false ∨ b.since + timeout ≤ now := by
  have idle : (!(sent peer).any fun time => now.since time < timeout) = true ↔
      ∀ time, sent peer = some time → time + timeout ≤ now := by
    cases sent peer with
    | none => simp
    | some time =>
      rw [Option.any_some, ← decide_not, decide_eq_true_eq, since_lt_timeout, Nat.not_lt]
      simp
  have free :
      (!(batch peer).any fun b => now.since b.since < timeout && !b.isExpired localBest) = true ↔
        ∀ b, batch peer = some b → b.reaches localBest = false ∨ b.since + timeout ≤ now := by
    cases batch peer with
    | none => simp
    | some b =>
      rw [Option.any_some, Bool.not_and, Bool.or_eq_true, ← decide_not, decide_eq_true_eq,
        since_lt_timeout, Nat.not_lt, ← b.reaches_eq, Bool.not_eq_true', or_comm]
      simp
  rw [mayAsk, h.asked.value peer, h.batches.value peer, Bool.and_eq_true, idle, free]

/-- Over tables with room for all peers, each peer has a register of its own. What is given
back, and whether bodies are awaited, is read off it, and what is done for others is not seen
in it. Each batch that is given back has a source of its own, which stored it for that peer.
Pruning leaves just the batches that bodies are still awaited for, and says how many went. -/
theorem one_register_for_each {peers : Finset PeerId} {capacity : Nat}
    {operations : List Operation} (few : peers.card ≤ capacity)
    (inside : ∀ operation ∈ operations, ∀ peer ∈ operation.noted?, peer ∈ peers) :
    (∀ peer,
      (∀ count localBest, ((run capacity operations).take peer count localBest).1 =
        (Operation.take peer count localBest).read peer (held peer operations)) ∧
      (∀ localBest, (run capacity operations).isWaiting peer localBest =
        (held peer operations).any (·.reaches localBest)) ∧
      held peer operations = held peer (operations.filter (Operation.concerns peer))) ∧
    (∃ source : Nat → Nat,
      (∀ place peer headers, returnedAt capacity operations place = some (peer, headers) →
        source place < place ∧
          ∃ now, operations[source place]? = some (.store peer headers now)) ∧
      ∀ place later, (returnedAt capacity operations place).isSome →
        (returnedAt capacity operations later).isSome → source place = source later →
          place = later) ∧
    (run capacity operations).size = {peer | (held peer operations).isSome}.ncard ∧
    ∀ localBest,
      let (removed, after) := (run capacity operations).prune localBest
      removed + after.size = (run capacity operations).size ∧
        after.size = {peer | after.isWaiting peer localBest}.ncard := by
  have tracks := tracks_run few inside
  refine ⟨fun peer => ⟨fun count localBest => ?_, fun localBest => ?_, ?_⟩,
    one_source_for_each few inside, tracks.size_eq, tracks.prune⟩
  · exact (tracks.take peer count localBest).1
  · exact tracks.isWaiting peer localBest
  · rw [held_filter]

/-- The batch of one peer is taken, and that of another waits for just as many bodies as it
has headers. -/
theorem one_register_for_two :
    let peers : Finset PeerId := {⟨1⟩, ⟨2⟩}
    let operations : List Operation :=
      [.store ⟨1⟩ [.empty] 0, .store ⟨2⟩ [.empty, .empty] 0, .take ⟨1⟩ 1 0, .take ⟨2⟩ 1 0]
    peers.card ≤ 2 ∧ (∀ operation ∈ operations, ∀ peer ∈ operation.noted?, peer ∈ peers) ∧
      ((run 2 operations).take ⟨1⟩ 1 0).1 = none ∧
      ((run 2 operations).take ⟨2⟩ 2 200).1 = some [.empty, .empty] ∧
      (run 2 operations).isWaiting ⟨2⟩ 201 = false ∧
      ((run 2 operations).prune 201).1 + ((run 2 operations).prune 201).2.size =
        (run 2 operations).size := by
  intro peers operations
  have few : peers.card ≤ 2 := by decide
  have inside : ∀ operation ∈ operations, ∀ peer ∈ operation.noted?, peer ∈ peers := by decide
  obtain ⟨registers, -, -, pruned⟩ := one_register_for_each few inside
  have first : held ⟨1⟩ operations = none := by decide
  have second : held ⟨2⟩ operations = some ⟨[.empty, .empty], 0⟩ := by decide
  refine ⟨few, inside, ?_, ?_, ?_, (pruned 201).1⟩
  · rw [(registers ⟨1⟩).1, first]
    rfl
  · rw [(registers ⟨2⟩).1, second]
    decide
  · rw [(registers ⟨2⟩).2.1, second]
    decide

end Requests

end BlockSync
