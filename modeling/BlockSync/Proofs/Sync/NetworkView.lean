import BlockSync.Proofs.Chain.Canonical
import BlockSync.Proofs.Sync.Moves
import Mathlib.Data.List.Induction

/-! The claims of peers, in any number and at any times. The heaviest that was looked at is
recorded, and none is looked at in the window that another has opened. So the recorded claims
grow heavier, and their times lie further apart than a window is long. What a synchronizer
records are claims of peers with the same genesis block, and those of peers that are ahead make
it queue a cycle of requests. -/
namespace BlockSync

/-- A list stays in order when what comes is after its last. -/
theorem pairwise_concat {α : Type} {R : α → α → Prop}
    (trans : ∀ a b c, R a b → R b c → R a c) {l : List α} {x : α} (ordered : l.Pairwise R) (last : ∀ a, l.getLast? = some a → R a x) :
    (l ++ [x]).Pairwise R := by
  rcases List.eq_nil_or_concat' l with rfl | ⟨front, final, rfl⟩
  · exact List.pairwise_singleton R x
  · have after := last final List.getLast?_concat
    refine List.pairwise_append.2 ⟨ordered, List.pairwise_singleton R x, ?_⟩
    intro a listed b single
    rw [List.mem_singleton.1 single]
    rcases List.mem_append.1 listed with early | own
    · exact trans _ _ _ ((List.pairwise_append.1 ordered).2.2 a early final List.mem_cons_self) after
    · rwa [List.mem_singleton.1 own]

/-- A claim, and the time at which it is offered. -/
structure Offer where
  time : Instant
  status : NetworkStatus

namespace Offer

/-- There is more than a window between them. -/
def Spaced (window : Duration) (o p : Offer) : Prop :=
  o.time + window < p.time

instance (window : Duration) (o p : Offer) : Decidable (Spaced window o p) :=
  inferInstanceAs (Decidable (_ < _))

end Offer

def NetworkStatus.Lighter (s t : NetworkStatus) : Prop :=
  s.claim.totalDifficulty < t.claim.totalDifficulty

instance (s t : NetworkStatus) : Decidable (s.Lighter t) :=
  inferInstanceAs (Decidable (_ < _))

theorem NetworkStatus.Lighter.trans {s t u : NetworkStatus} (h : Lighter s t) (k : Lighter t u) :
    Lighter s u :=
  BitVec.lt_trans h k

namespace NetworkView

variable {v : NetworkView} {o : Offer} {window : Duration} {offers : List Offer}

def meet (v : NetworkView) (o : Offer) : NetworkView :=
  (v.offer o.time o.status).2

def meetAll (v : NetworkView) (offers : List Offer) : NetworkView :=
  offers.foldl meet v

def opens (v : NetworkView) (o : Offer) : Bool :=
  !v.isOpen o.time

def replaces (v : NetworkView) (o : Offer) : Bool :=
  (v.offer o.time o.status).1

/-- The offers of which something is true of the view that they meet. -/
def those (judge : NetworkView → Offer → Bool) (v : NetworkView) : List Offer → List Offer
  | [] => []
  | o :: rest => (if judge v o then [o] else []) ++ those judge (v.meet o) rest

theorem those_concat (judge : NetworkView → Offer → Bool) (v : NetworkView) (offers : List Offer)
    (o : Offer) :
    those judge v (offers ++ [o]) =
      those judge v offers ++ if judge (v.meetAll offers) o then [o] else [] := by
  induction offers generalizing v with
  | nil => exact List.append_nil _
  | cons first rest ih =>
    rw [List.cons_append, those, ih, those, List.append_assoc]
    rfl

theorem meetAll_concat (v : NetworkView) (offers : List Offer) (o : Offer) :
    v.meetAll (offers ++ [o]) = (v.meetAll offers).meet o := by
  simp [meetAll]

/-- An offer is not looked at, or is recorded, or only opens a window. -/
theorem offer_cases (v : NetworkView) (o : Offer) :
    v.opens o = false ∧ v.replaces o = false ∧ v.meet o = v ∨
    v.opens o = true ∧ v.replaces o = true ∧ v.status.Lighter o.status ∧
      v.meet o = { v with status := o.status, opened := some o.time } ∨
    v.opens o = true ∧ v.replaces o = false ∧ ¬ v.status.Lighter o.status ∧
      v.meet o = { v with opened := some o.time } := by
  unfold replaces meet opens offer NetworkStatus.Lighter
  split
  · rename_i inside
    exact .inl ⟨by rw [inside]; rfl, rfl, rfl⟩
  · rename_i outside
    rw [Bool.not_eq_true] at outside
    rw [outside]
    split
    · rename_i heavier
      exact .inr (.inl ⟨rfl, rfl, heavier, rfl⟩)
    · rename_i lighter
      exact .inr (.inr ⟨rfl, rfl, lighter, rfl⟩)

theorem opens_iff (v : NetworkView) (o : Offer) :
    v.opens o = true ↔ ∀ time, v.opened = some time → time + v.window < o.time := by
  unfold opens isOpen Instant.since
  cases v.opened with
  | none => simp
  | some time =>
    have late : ¬ o.time - time ≤ v.window ↔ time + v.window < o.time := by
      rw [Nat.not_le, Nat.lt_sub_iff_add_lt, Nat.add_comm]
    simpa using late

/-- What a view is after some offers, of which some opened windows and some were recorded. -/
structure Told (window : Duration) (openings replacements : List Offer) (v : NetworkView) :
    Prop where
  length : v.window = window
  opened : v.opened = (openings.map (·.time)).getLast?
  status : (NetworkStatus.empty :: replacements.map (·.status)).getLast? = some v.status
  spaced : openings.Pairwise (Offer.Spaced window)
  rising : (NetworkStatus.empty :: replacements.map (·.status)).Pairwise NetworkStatus.Lighter
  part : replacements.Sublist openings

variable {openings replacements : List Offer}

theorem told_new (window : Duration) : Told window [] [] (new window) where
  length := rfl
  opened := rfl
  status := rfl
  spaced := .nil
  rising := List.pairwise_singleton _ _
  part := .slnil

theorem Told.opens_iff (h : Told window openings replacements v) (o : Offer) :
    v.opens o = true ↔ ∀ last, openings.getLast? = some last → last.Spaced window o := by
  rw [NetworkView.opens_iff, h.opened, h.length, List.getLast?_map]
  simp [Offer.Spaced]

theorem Told.open (h : Told window openings replacements v) (opens : v.opens o = true) :
    (openings ++ [o]).Pairwise (Offer.Spaced window) := by
  refine pairwise_concat ?_ h.spaced ((h.opens_iff o).1 opens)
  intro first second third one two
  exact Nat.lt_of_le_of_lt (Nat.le_trans (Nat.le_of_lt one) (Nat.le_add_right _ _)) two

theorem Told.meet (h : Told window openings replacements v) (o : Offer) :
    Told window (openings ++ if v.opens o then [o] else [])
      (replacements ++ if v.replaces o then [o] else []) (v.meet o) := by
  rcases v.offer_cases o with ⟨opens, replaces, met⟩ | ⟨opens, replaces, heavier, met⟩ |
    ⟨opens, replaces, -, met⟩
  · rw [opens, replaces, met]
    simpa using h
  · have rising : ((NetworkStatus.empty :: replacements.map (·.status)) ++ [o.status]).Pairwise
        NetworkStatus.Lighter := by
      refine pairwise_concat (fun _ _ _ => .trans) h.rising fun last latest => ?_
      rw [h.status] at latest
      rwa [← Option.some.inj latest]
    rw [opens, replaces, met, if_pos rfl]
    refine ⟨h.length, by simp, ?_, h.open opens, by simpa using rising, h.part.append_right [o]⟩
    rw [List.map_append, ← List.cons_append]
    exact List.getLast?_concat
  · rw [opens, replaces, met, if_pos rfl]
    refine ⟨h.length, by simp, by simpa using h.status, h.open opens, by simpa using h.rising, ?_⟩
    simpa using h.part.trans (List.sublist_append_left _ _)

theorem told_meetAll (window : Duration) (offers : List Offer) :
    Told window (those opens (new window) offers) (those replaces (new window) offers)
      ((new window).meetAll offers) := by
  induction offers using List.reverseRecOn with
  | nil => exact told_new window
  | append_singleton offers o ih =>
    rw [those_concat, those_concat, meetAll_concat]
    exact ih.meet o

theorem meetAll_append (v : NetworkView) (offers more : List Offer) :
    v.meetAll (offers ++ more) = (v.meetAll offers).meetAll more :=
  List.foldl_append

end NetworkView

namespace Synchronizer

open NetworkView

variable {s t : Synchronizer} {peer : PeerId} {displayId : String} {status : PeerStatus}

/-- Whatever is done, the view has only met offers. -/
theorem Moves.view (h : Moves s t) : ∃ offers, t.view = s.view.meetAll offers := by
  induction h with
  | elsewhere h => exact ⟨[], h.view⟩
  | offer s status => exact ⟨[⟨s.now, status⟩], rfl⟩
  | ask s =>
    obtain ⟨importJobs, cycleQueued, turns, asked⟩ := s.queueCycle_eq
    exact ⟨[], by rw [asked]; rfl⟩
  | queue | batch | cycle | close => exact ⟨[], rfl⟩
  | trans _ _ first second =>
    obtain ⟨offers, met⟩ := first
    obtain ⟨more, further⟩ := second
    exact ⟨offers ++ more, by rw [further, met, meetAll_append]⟩

theorem view_of_reachable {genesis : Block} (reachable : Reachable genesis s) :
    ∃ offers, s.view = (NetworkView.new defaultWindow).meetAll offers := by
  induction reachable with
  | new => exact ⟨[], rfl⟩
  | step _ step ih =>
    obtain ⟨offers, met⟩ := ih
    obtain ⟨more, further⟩ := (Moves.step step).view
    exact ⟨offers ++ more, by rw [further, met, meetAll_append]⟩

/-- A cycle is to be queued for a peer with such a total: the peer is ahead, no cycle is queued,
and the queue has room. -/
def Wants (s : Synchronizer) (total : Difficulty) : Prop :=
  s.chain.total < total ∧ s.cycleQueued = false ∧ s.importJobs.HasRoom

/-- A peer with another genesis block is charged, and that is all. -/
structure Spurns (s t : Synchronizer) (peer : PeerId) (displayId : String) : Prop where
  view : t.view = s.view
  effects : t.effects = s.effects ++ [.charge peer displayId]
  importJobs : t.importJobs = s.importJobs
  cycleQueued : t.cycleQueued = s.cycleQueued

/-- The claim of a peer is noted and offered to the view, and a cycle is queued if it is
wanted. -/
structure Heeds (s t : Synchronizer) (peer : PeerId) (displayId : String) (status : PeerStatus) :
    Prop where
  view : t.view = (s.view.offer s.now ⟨displayId, status⟩).2
  effects : t.effects = s.effects ++ [.notePeerChain peer status.chain]
  queued : s.Wants status.totalDifficulty → t.cycleQueued = true ∧
    t.importJobs = { s.importJobs with jobs := s.importJobs.jobs ++ [.cycle] }
  unqueued : ¬ s.Wants status.totalDifficulty → t.cycleQueued = s.cycleQueued ∧
    t.importJobs = s.importJobs

theorem spurns_takeStatus (foreign : status.genesisHash ≠ s.chain.genesis) :
    Spurns s (s.takeStatus peer displayId status) peer displayId := by
  have foreign' : status.genesisHash ≠ (s.recordResponse displayId .status).chain.genesis := foreign
  unfold takeStatus
  dsimp only
  rw [if_pos foreign']
  exact ⟨rfl, rfl, rfl, rfl⟩

/-- What is asked for because of a claim. -/
def ask (s : Synchronizer) (total : Difficulty) : Synchronizer :=
  if total > s.chain.total then s.queueCycle else s

theorem ask_eq (s : Synchronizer) (total : Difficulty) :
    ∃ importJobs cycleQueued turns,
      s.ask total = { s with importJobs, cycleQueued, turns } := by
  unfold ask
  split
  · exact s.queueCycle_eq
  · exact ⟨_, _, _, rfl⟩

theorem ask_of_wants {total : Difficulty} (wants : s.Wants total) :
    (s.ask total).cycleQueued = true ∧
      (s.ask total).importJobs =
        { s.importJobs with jobs := s.importJobs.jobs ++ [ImportJob.cycle] } := by
  obtain ⟨ahead, idle, room⟩ := wants
  rw [ask, if_pos ahead, queueCycle_of_room idle room]
  have kept := elsewhere_wake { s with
    importJobs := { s.importJobs with jobs := s.importJobs.jobs ++ [ImportJob.cycle] }
    cycleQueued := true } .imports
  exact ⟨kept.cycleQueued, kept.importJobs⟩

theorem ask_of_not_wants {total : Difficulty} (unwanted : ¬ s.Wants total) : s.ask total = s := by
  unfold ask
  split
  · rename_i ahead
    exact queueCycle_of_none fun both => unwanted ⟨ahead, both⟩
  · rfl

theorem noteClaim_spec (s : Synchronizer) (displayId : String) (claim : PeerStatus) :
    let t := s.noteClaim displayId claim
    let asked := s.ask claim.totalDifficulty
    t.view = (s.view.offer s.now ⟨displayId, claim⟩).2 ∧ t.effects = s.effects ∧
      t.cycleQueued = asked.cycleQueued ∧ t.importJobs = asked.importJobs := by
  obtain ⟨importJobs, cycleQueued, turns, asked⟩ := s.ask_eq claim.totalDifficulty
  unfold noteClaim
  rw [← ask.eq_1, asked]
  dsimp only
  split <;> exact ⟨rfl, rfl, rfl, rfl⟩

theorem heeds_takeStatus (own : status.genesisHash = s.chain.genesis) :
    Heeds s (s.takeStatus peer displayId status) peer displayId status := by
  let t := (s.recordResponse displayId .status).emit (.notePeerChain peer status.chain)
  have taken : s.takeStatus peer displayId status = t.noteClaim displayId status :=
    if_neg (not_not.2 own)
  obtain ⟨view, effects, cycleQueued, importJobs⟩ := t.noteClaim_spec displayId status
  rw [taken]
  refine ⟨view, effects, ?_, ?_⟩
  · intro wants
    rw [cycleQueued, importJobs]
    exact ask_of_wants (s := t) wants
  · intro unwanted
    have same : t.ask status.totalDifficulty = t := ask_of_not_wants unwanted
    rw [cycleQueued, importJobs, same]
    exact ⟨rfl, rfl⟩

end Synchronizer

namespace NetworkView

open Synchronizer (Reachable Spurns Heeds)

/-- Of the offers made at any times, those that were recorded grow heavier, and those that opened
windows lie more than a window apart; what is recorded opened a window, and the view has the last
of it. The next offer opens a window if it comes more than a window after the last that did, and
is recorded if it is also heavier than what the view has. A claim from a peer with another
genesis block only costs the peer an error. One from a peer with the same block is noted and
offered, and queues a cycle exactly if the peer is ahead, none is queued, and there is room. So
whatever a synchronizer does, its view is one that offers lead to. -/
theorem record_of_offers (window : Duration) (offers : List Offer) :
    let start := new window
    let v := start.meetAll offers
    let openings := those opens start offers
    let replacements := those replaces start offers
    let recorded := NetworkStatus.empty :: replacements.map (·.status)
    recorded.getLast? = some v.status ∧ recorded.Pairwise NetworkStatus.Lighter ∧
    openings.Pairwise (Offer.Spaced window) ∧ replacements.Sublist openings ∧
    (∀ next,
      (v.opens next = true ↔ ∀ last, openings.getLast? = some last → last.Spaced window next) ∧
      (v.replaces next = true ↔ v.opens next = true ∧ v.status.Lighter next.status)) ∧
    (∀ (s : Synchronizer) (peer : PeerId) (displayId : String) (status : PeerStatus),
      let t := s.handle peer displayId (.resStatus status)
      (status.genesisHash ≠ s.chain.genesis → Spurns s t peer displayId) ∧
      (status.genesisHash = s.chain.genesis → Heeds s t peer displayId status)) ∧
    ∀ genesis s, Reachable genesis s → ∃ told, s.view = (new defaultWindow).meetAll told := by
  intro start v openings replacements recorded
  have told : Told window openings replacements v := told_meetAll window offers
  refine ⟨told.status, told.rising, told.spaced, told.part, ?_, ?_, ?_⟩
  · intro next
    refine ⟨told.opens_iff next, ?_⟩
    rcases v.offer_cases next with ⟨opens, replaces, -⟩ | ⟨opens, replaces, heavier, -⟩ |
      ⟨opens, replaces, lighter, -⟩
    · simp [opens, replaces]
    · simp [opens, replaces, heavier]
    · simp [opens, replaces, lighter]
  · exact fun s peer displayId status =>
      ⟨Synchronizer.spurns_takeStatus, Synchronizer.heeds_takeStatus⟩
  · exact fun genesis s reachable => Synchronizer.view_of_reachable reachable

/-- Of three offers the second comes too early and the third is too light, but opens a window.
At its start a synchronizer queues a cycle for a peer that is ahead on the same chain, and for
no other. -/
theorem record_of_three_offers :
    let heavy (total : Difficulty) : PeerStatus :=
      { NetworkStatus.empty.claim with totalDifficulty := total }
    let offers : List Offer := [⟨0, "a", heavy 10⟩, ⟨500, "b", heavy 20⟩, ⟨2000, "c", heavy 5⟩]
    let v := (new 1000).meetAll offers
    let s : Synchronizer := .new {} (fun _ => .ok ()) (.history Chain.Fork.start {} []) 0
    let own : PeerStatus := { heavy 1 with genesisHash := s.chain.genesis }
    let foreign : PeerStatus := { heavy 1 with genesisHash := ⟨s.chain.genesis.word + 1⟩ }
    v.replaces ⟨3000, "b", heavy 20⟩ = false ∧ v.replaces ⟨3001, "b", heavy 20⟩ = true ∧
    (s.handle ⟨1⟩ "d" (.resStatus own)).importJobs.jobs = [.cycle] ∧
    (s.handle ⟨1⟩ "d" (.resStatus foreign)).importJobs.jobs = [] ∧
    ∃ told, s.view = (new defaultWindow).meetAll told := by
  intro heavy offers v s own foreign
  obtain ⟨-, -, -, -, next, answers, reached⟩ := record_of_offers 1000 offers
  have last : (those opens (new 1000) offers).getLast? = some ⟨2000, "c", heavy 5⟩ := rfl
  have early : v.opens ⟨3000, "b", heavy 20⟩ = false := by
    rw [Bool.eq_false_iff]
    intro opens
    exact absurd ((next _).1.1 opens _ last) (by decide)
  have late : v.opens ⟨3001, "b", heavy 20⟩ = true := by
    refine (next _).1.2 fun other latest => ?_
    rw [last] at latest
    cases latest
    decide
  have apart : foreign.genesisHash ≠ s.chain.genesis := by
    intro same
    have word : s.chain.genesis.word + 1 = s.chain.genesis.word := congrArg Hash.word same
    bv_omega
  have wants : s.Wants own.totalDifficulty := by
    refine ⟨?_, rfl, rfl, by decide⟩
    change (Chain.new Chain.Fork.start {}).total < 1
    rw [Chain.total_new]
    decide
  refine ⟨?_, ?_, ?_, ?_, ?_⟩
  · rw [Bool.eq_false_iff]
    intro replaces
    rw [((next _).2.1 replaces).1] at early
    cases early
  · exact (next _).2.2 ⟨late, by decide⟩
  · rw [(((answers s ⟨1⟩ "d" own).2 rfl).queued wants).2]
    rfl
  · rw [((answers s ⟨1⟩ "d" foreign).1 apart).importJobs]
    rfl
  · exact reached Chain.Fork.start s (.new _ _ _ _ _)

end NetworkView

end BlockSync
