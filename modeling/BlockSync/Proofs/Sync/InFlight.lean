import BlockSync.Proofs.Chain.Canonical
import BlockSync.Proofs.Sync.Dealings

/-! How the requests for headers to one peer are kept apart. A cycle chooses just the peers that
are ahead and owe nothing: what was chosen for them before is answered, was refused or is old, and
so are the headers whose bodies they were asked for. So the choices are apart. The requests go out
later, and what settles the first of two may come even before it is sent. -/
namespace BlockSync.Requests.Run

variable {capacity : Nat} {log front mid back : List Deed} {stage : Stage} {b : Bearings}
  {s t u : Synchronizer} {deed : Deed} {r : HeaderRequest} {peers : Finset PeerId} {peer : PeerId}

/-- All peers that are chosen, or that batches are stored of, are among some. -/
def Within (peers : Finset PeerId) (log : List Deed) : Prop :=
  ∀ deed ∈ log, ∀ peer, deed.Notes peer → peer ∈ peers

theorem tracks (h : Run capacity log stage s) (few : peers.card ≤ capacity)
    (inside : Within peers log) :
    Tracks peers s.requests (fun peer => held peer (log.flatMap Deed.operations))
      fun peer => owed peer (log.flatMap Deed.operations) := by
  rw [h.requests_eq]
  refine tracks_run few fun operation member peer noted => ?_
  obtain ⟨deed, listed, performed⟩ := List.mem_flatMap.1 member
  exact inside deed listed peer (Deed.notes_of_noted performed noted)

theorem Within.left {more : List Deed} (inside : Within peers (log ++ more)) : Within peers log :=
  fun deed member => inside deed (List.mem_append_left more member)

theorem Within.chosen (inside : Within peers (front ++ Deed.chose b t :: back)) (peer : PeerId)
    (chosen : t.Chooses b peer) : peer ∈ peers :=
  inside (.chose b t) (List.mem_append_right _ List.mem_cons_self) peer chosen

/-- A peer that tells of a total difficulty of one. -/
def distant : PeerInfo :=
  ⟨⟨0⟩, .v4 0 0, .outbound, ⟨1, .zero, 1⟩, 0⟩

/-- Runs with that peer alone, and with one block, of no difficulty. -/
structure Alone (number : UInt64) (log : List Deed) (stage : Stage) (s : Synchronizer) : Prop where
  run : Run 128 log stage s
  inside : Within {distant.peer} log
  chain : s.chain = .new ⟨{ Header.empty with number }, ⟨[]⟩⟩ {}
  peers : s.network.peers = [distant]
  accepts : s.network.accepts distant.peer = true

namespace Alone

variable {number : UInt64} {place : Nat} {left : List (PeerInfo × Nat)}

theorem start (number : UInt64) :
    ∃ s, Alone number [] .idle s ∧ s.now = 0 ∧ s.requests = .new 128 :=
  ⟨{ Synchronizer.new {} (fun _ => .ok ()) (.new ⟨{ Header.empty with number }, ⟨[]⟩⟩ {}) 0 with
      network := { Surroundings.none with peers := [distant] } },
    ⟨.new rfl rfl, fun _ member => absurd member List.not_mem_nil, rfl, rfl, rfl⟩, rfl, rfl⟩

theorem bearings (h : Alone number log stage s) : s.bearings = ⟨number, 0, s.now⟩ := by
  have stored := (Chain.blocks_new ⟨{ Header.empty with number }, ⟨[]⟩⟩ {} _).trans (if_pos rfl)
  rw [Synchronizer.bearings, h.chain, Chain.total_new]
  exact congrArg (Bearings.mk · 0 s.now) (Chain.bestNumber_eq stored)

theorem choosePeers (h : Alone number log stage s)
    (idle : s.requests.mayAsk distant.peer s.now number = true) :
    s.choosePeers ⟨number, 0, s.now⟩ = ([distant], s.requests.noteAsked distant.peer s.now) := by
  rw [Synchronizer.choosePeers, h.peers, List.foldl_cons, List.foldl_nil, Bearings.pick, if_pos]
  · rfl
  · rw [idle]
    rfl

theorem within (h : Alone number log stage s) (deed : Deed)
    (own : ∀ peer, deed.Notes peer → peer = distant.peer) :
    Within {distant.peer} (log ++ [deed]) := by
  intro other member peer notes
  rcases List.mem_append.1 member with before | last
  · exact h.inside other before peer notes
  · cases List.mem_singleton.1 last
    exact Finset.mem_singleton.2 (own peer notes)

theorem own (h : Alone number log stage s) (chooses : s.Chooses b peer) : peer = distant.peer := by
  obtain ⟨p, listed, rfl⟩ := Synchronizer.listed_of_chooses chooses
  rw [h.peers, List.mem_singleton] at listed
  rw [listed]

/-- If the peer owes nothing, it is chosen. -/
theorem choose (h : Alone number log .idle s)
    (idle : s.requests.mayAsk distant.peer s.now number = true) :
    s.Chooses ⟨number, 0, s.now⟩ distant.peer ∧ ∃ t,
      Alone number (log ++ [.chose ⟨number, 0, s.now⟩ s])
        (.asking ⟨number, 0, s.now⟩ [(distant, 0)]) t ∧
      t.now = s.now ∧ t.requests = s.requests.noteAsked distant.peer s.now := by
  have ready : Run 128 log (.ready s.bearings) s := h.run.begin.look
  rw [h.bearings] at ready
  have chosen := ready.choose
  have picked := h.choosePeers idle
  rw [picked] at chosen
  refine ⟨?_, _, ⟨chosen, h.within _ fun _ => h.own, h.chain, h.peers, h.accepts⟩, rfl, rfl⟩
  rw [Synchronizer.Chooses, Synchronizer.peers_plan, picked]
  exact List.mem_cons_self

theorem send (h : Alone number log (.asking b ((distant, place) :: left)) s) : ∃ t,
    Alone number (log ++ [.sent (b.request (distant, place)) s.now]) (.asking b left) t ∧
      t.now = s.now ∧ t.requests = s.requests :=
  ⟨_, ⟨h.run.send (if_pos h.accepts), h.within _ nofun, h.chain, h.peers, h.accepts⟩, rfl, rfl⟩

theorem finish (h : Alone number log (.asking b []) s) : Alone number log .idle s :=
  ⟨h.run.finish, h.inside, h.chain, h.peers, h.accepts⟩

theorem note (h : Alone number log stage s) (deed : Deed) (plain : deed.ofCycle = false)
    (own : ∀ peer, deed.Notes peer → peer = distant.peer) : ∃ t,
      Alone number (log ++ [deed]) stage t ∧ t.now = s.now ∧
        t.requests = s.requests.performAll deed.operations :=
  ⟨_, ⟨h.run.other deed plain, h.within deed own, h.chain, h.peers, h.accepts⟩, rfl, rfl⟩

end Alone

/-- A peer that has answered may be asked again. -/
theorem mayAsk_answered (peer : PeerId) (localBest : UInt64) :
    (((Requests.new 128).noteAsked peer 0).noteAnswered peer).mayAsk peer 0 localBest = true := by
  have tracks : Tracks {peer} (run 128 [.noteAsked peer 0, .noteAnswered peer]) _ _ :=
    tracks_run (Nat.le_of_ble_eq_true rfl) (by simp [Operation.noted?])
  refine tracks.mayAsk_iff.2 ⟨fun time noted => ?_, nofun⟩
  have none : owed peer [.noteAsked peer 0, .noteAnswered peer] = none := if_pos rfl
  cases none.symm.trans noted

/-- The answer comes before the request is sent. -/
theorem Alone.answered (number : UInt64) : ∃ s t,
    Alone number [.chose ⟨number, 0, 0⟩ s, .headersFrom distant.peer]
      (.asking ⟨number, 0, 0⟩ [(distant, 0)]) t ∧
    t.now = 0 ∧ t.requests.mayAsk distant.peer 0 number = true := by
  obtain ⟨s, start, now, requests⟩ := Alone.start number
  obtain ⟨-, t, asked, same, noted⟩ := start.choose (requests ▸ rfl)
  obtain ⟨u, told, still, answered⟩ := asked.note (.headersFrom distant.peer) rfl nofun
  rw [now] at told
  refine ⟨s, u, told, (still.trans same).trans now, ?_⟩
  rw [answered, noted, requests, now]
  exact mayAsk_answered distant.peer number

end BlockSync.Requests.Run
