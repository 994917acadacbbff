import BlockSync.Proofs.Sync.Asking
import BlockSync.Proofs.Sync.Registers

/-! Whom a cycle of header requests chooses. It notes just the listed peers that are ahead and that
might be asked when it chooses, each of them once, and plans one request for each. A request that
is then offered to the transport is sent, or nothing is said. -/
namespace BlockSync

def Bearings.request (b : Bearings) (p : PeerInfo × Nat) : HeaderRequest :=
  ⟨p.1.peer, b.start, Synchronizer.requestSize p.2⟩

namespace Synchronizer

open Requests (Operation Tracks)

variable {peers : Finset PeerId} {s t : Synchronizer} {b : Bearings} {peer : PeerId}

def headerRequests (s : Synchronizer) : List HeaderRequest :=
  s.effects.filterMap Effect.headerRequest?

/-- The requests of a cycle that chooses now, in the order in which they are to be sent. -/
def plan (s : Synchronizer) (b : Bearings) : List HeaderRequest :=
  (s.choosePeers b).1.zipIdx.map b.request

def Chooses (s : Synchronizer) (b : Bearings) (peer : PeerId) : Prop :=
  peer ∈ (s.plan b).map HeaderRequest.peer

instance (s : Synchronizer) (b : Bearings) (peer : PeerId) : Decidable (s.Chooses b peer) :=
  inferInstanceAs (Decidable (peer ∈ _))

theorem peers_plan (s : Synchronizer) (b : Bearings) :
    (s.plan b).map HeaderRequest.peer = (s.choosePeers b).1.map PeerInfo.peer := by
  conv_rhs => rw [← List.zipIdx_map_fst 0 (s.choosePeers b).1]
  rw [plan, List.map_map, List.map_map]
  rfl

/-- Those picked from a list are ahead and, if the tables have room for them, are those that
might have been asked in the beginning, each once. -/
theorem pick_eq (b : Bearings) (listed before : List PeerInfo) (requests : Requests) :
    ∃ picked : List PeerInfo, listed.foldl b.pick (before, requests) =
        (before ++ picked, requests.performAll (picked.map fun p => .noteAsked p.peer b.now)) ∧
      (∀ p ∈ picked, p ∈ listed ∧ b.total < p.chain.totalDifficulty) ∧
      ∀ {peers batch sent}, Tracks peers requests batch sent → (∀ p ∈ picked, p.peer ∈ peers) →
        (picked.map PeerInfo.peer).Nodup ∧
          ∀ p ∈ listed, b.total < p.chain.totalDifficulty →
            (p.peer ∈ picked.map PeerInfo.peer ↔
              requests.mayAsk p.peer b.now b.best = true) := by
  -- along the list, with the tables as those picked before have left them
  induction listed generalizing before requests with
  | nil =>
    refine ⟨[], ?_, fun _ member => absurd member List.not_mem_nil, ?_⟩
    · rw [List.append_nil]
      rfl
    · exact fun _ _ => ⟨List.nodup_nil, fun _ member => absurd member List.not_mem_nil⟩
  | cons first rest ih =>
    rw [List.foldl_cons, Bearings.pick]
    split
    · rename_i eligible
      rw [Bool.and_eq_true, decide_eq_true_eq] at eligible
      obtain ⟨picked, result, sound, complete⟩ :=
        ih (before ++ [first]) (requests.noteAsked first.peer b.now)
      refine ⟨first :: picked, ?_, ?_, ?_⟩
      · exact result.trans (by rw [← List.append_cons]; rfl)
      · rintro p (_ | ⟨_, member⟩)
        · exact ⟨List.mem_cons_self, eligible.1⟩
        · exact ⟨List.mem_cons_of_mem _ (sound p member).1, (sound p member).2⟩
      intro peers batch sent tracks inside
      have room := inside first List.mem_cons_self
      have next : Tracks peers (requests.noteAsked first.peer b.now) _ _ :=
        tracks.perform (.noteAsked first.peer b.now) fun _ own => by
          cases own
          exact room
      obtain ⟨distinct, allowed⟩ :=
        complete next fun p member => inside p (List.mem_cons_of_mem _ member)
      have busy : (requests.noteAsked first.peer b.now).mayAsk first.peer b.now b.best
          = false := by
        rw [← Bool.not_eq_true, next.mayAsk_iff]
        intro idle
        have old := idle.1 b.now (if_pos rfl)
        exact absurd old (Nat.not_le.2 (Nat.lt_add_of_pos_right (by decide)))
      have others {p : PeerInfo} (apart : first.peer ≠ p.peer) :
          (requests.noteAsked first.peer b.now).mayAsk p.peer b.now b.best = true ↔
            requests.mayAsk p.peer b.now b.best = true := by
        rw [next.mayAsk_iff, tracks.mayAsk_iff]
        simp only [Operation.note, Operation.write, if_neg apart]
      -- the note just made keeps an entry of the same peer further on from being picked
      have absent : first.peer ∉ picked.map PeerInfo.peer := by
        intro again
        obtain ⟨p, member, same⟩ := List.mem_map.1 again
        obtain ⟨listed, ahead⟩ := sound p member
        have asked := (allowed p listed ahead).1 (List.mem_map_of_mem member)
        rw [same, busy] at asked
        cases asked
      refine ⟨List.nodup_cons.2 ⟨absent, distinct⟩, ?_⟩
      rintro p member ahead
      by_cases same : first.peer = p.peer
      · rw [← same]
        exact ⟨fun _ => eligible.2, fun _ => List.mem_cons_self⟩
      · have later : p ∈ rest := by
          rcases List.mem_cons.1 member with rfl | later
          · exact absurd rfl same
          · exact later
        rw [List.map_cons, List.mem_cons, or_iff_right (Ne.symm same), allowed p later ahead,
          others same]
    · rename_i refused
      obtain ⟨picked, result, sound, complete⟩ := ih before requests
      refine ⟨picked, result, ?_, ?_⟩
      · exact fun p member => ⟨List.mem_cons_of_mem _ (sound p member).1, (sound p member).2⟩
      intro peers batch sent tracks inside
      obtain ⟨distinct, allowed⟩ := complete tracks inside
      refine ⟨distinct, ?_⟩
      rintro p (_ | ⟨_, member⟩) ahead
      · constructor
        · intro again
          obtain ⟨q, listed, same⟩ := List.mem_map.1 again
          rw [← same]
          exact (allowed q (sound q listed).1 (sound q listed).2).1 (List.mem_map_of_mem listed)
        · intro idle
          exact absurd (by rw [idle, Bool.and_true, decide_eq_true_eq]; exact ahead) refused
      · exact allowed p member ahead

theorem choosePeers_spec (s : Synchronizer) (b : Bearings) :
    (s.choosePeers b).2 =
        s.requests.performAll ((s.choosePeers b).1.map fun p => .noteAsked p.peer b.now) ∧
      (∀ p ∈ (s.choosePeers b).1, p ∈ s.network.peers ∧ b.total < p.chain.totalDifficulty) ∧
      ∀ {peers batch sent}, Tracks peers s.requests batch sent →
        (∀ p ∈ (s.choosePeers b).1, p.peer ∈ peers) →
          ((s.choosePeers b).1.map PeerInfo.peer).Nodup ∧
            ∀ p ∈ s.network.peers, b.total < p.chain.totalDifficulty →
              (p.peer ∈ (s.choosePeers b).1.map PeerInfo.peer ↔
                s.requests.mayAsk p.peer b.now b.best = true) := by
  obtain ⟨picked, result, spec⟩ := pick_eq b s.network.peers [] s.requests
  change s.choosePeers b = _ at result
  rw [result, List.nil_append]
  exact ⟨rfl, spec⟩

theorem requests_choosePeers (s : Synchronizer) (b : Bearings) :
    (s.choosePeers b).2 =
      s.requests.performAll ((s.plan b).map fun r => .noteAsked r.peer b.now) := by
  have noted : ((s.plan b).map HeaderRequest.peer).map (Operation.noteAsked · b.now) =
      ((s.choosePeers b).1.map PeerInfo.peer).map (Operation.noteAsked · b.now) := by
    rw [peers_plan]
  rw [List.map_map, List.map_map] at noted
  exact (s.choosePeers_spec b).1.trans (congrArg s.requests.performAll noted.symm)

theorem listed_of_chooses (chooses : s.Chooses b peer) : ∃ p ∈ s.network.peers, p.peer = peer := by
  rw [Chooses, peers_plan] at chooses
  obtain ⟨p, member, same⟩ := List.mem_map.1 chooses
  exact ⟨p, ((s.choosePeers_spec b).2.1 p member).1, same⟩

/-- A request that is offered is said, or all is as before but for the statistics. -/
theorem offerRequest_spec {p : PeerInfo × Nat} {taken : Bool}
    (offered : s.offerRequest p.1 b.start (requestSize p.2) = (taken, t)) :
    t.requests = s.requests ∧
      t.headerRequests = s.headerRequests ++ if taken then [b.request p] else [] := by
  unfold offerRequest send at offered
  split at offered <;> cases offered
  · exact ⟨rfl, List.filterMap_append⟩
  · exact ⟨rfl, (List.append_nil _).symm⟩

end Synchronizer

end BlockSync
