import BlockSync.Proofs.Sync.Runs

/-! A cycle of header requests. A listed peer that is ahead and owes nothing is sent one
request for the headers after the head, whichever other peers are asked with it. -/
namespace BlockSync

theorem Requests.mayAsk_noteAsked {r : Requests} {peer other : PeerId} {now : Instant}
    {localBest : UInt64} (apart : other ≠ peer) (idle : r.mayAsk peer now localBest = true) :
    (r.noteAsked other now).mayAsk peer now localBest = true := by
  unfold Requests.mayAsk at idle ⊢
  unfold Requests.noteAsked
  dsimp only at idle ⊢
  rw [Bool.and_eq_true] at idle ⊢
  refine ⟨?_, idle.2⟩
  rcases Recency.peek?_insert_of_ne (c := r.asked) now apart with same | gone
  · rw [same]
    exact idle.1
  · rw [gone]
    rfl

namespace Synchronizer

/-- The messages sent to a peer so far, in order. -/
def sent (s : Synchronizer) (peer : PeerId) : List Message :=
  s.effects.filterMap fun
    | .send target _ m => if target = peer then some m else none
    | _ => none

theorem sent_of_effects {s t : Synchronizer} {target : PeerId} {displayId : String} {m : Message}
    (said : t.effects = s.effects ++ [.send target displayId m]) (peer : PeerId) :
    t.sent peer = s.sent peer ++ if target = peer then [m] else [] := by
  unfold sent
  rw [said, List.filterMap_append]
  by_cases same : target = peer <;> simp [same]

variable {s : Synchronizer} {peer : PeerId}

theorem send_of_accepts (accepts : s.network.accepts peer = true) (displayId : String)
    (m : Message) : s.send peer displayId m = (true, s.emit (.send peer displayId m)) :=
  if_pos accepts

theorem sent_send_of_ne {target : PeerId} (apart : target ≠ peer) (s : Synchronizer)
    (displayId : String)
    (m : Message) : (s.send target displayId m).2.sent peer = s.sent peer := by
  unfold send
  split
  · rw [sent_of_effects rfl peer, if_neg apart, List.append_nil]
  · rfl

theorem sent_askForHeaders_of_ne {p : PeerInfo} (apart : p.peer ≠ peer) (s : Synchronizer)
    (start : UInt64) (take : UInt32) : (s.askForHeaders p start take).sent peer = s.sent peer := by
  have same := sent_send_of_ne apart (s.recordRequest p.displayId .headers) p.displayId
    (.reqBlocksHeaders start take)
  unfold askForHeaders offerRequest
  split <;> rename_i result <;> rw [result] at same <;> exact same

theorem sent_askForHeaders_self {p : PeerInfo} (accepts : s.network.accepts p.peer = true)
    (start : UInt64) (take : UInt32) :
    (s.askForHeaders p start take).sent p.peer =
      s.sent p.peer ++ [.reqBlocksHeaders start take] := by
  have accepts' : (s.recordRequest p.displayId .headers).network.accepts p.peer = true := accepts
  unfold askForHeaders offerRequest
  rw [send_of_accepts accepts']
  dsimp only
  rw [sent_of_effects rfl p.peer, if_pos rfl]
  rfl

theorem sent_askAll_of_not_mem {chosen : List (PeerInfo × Nat)}
    (apart : ∀ p ∈ chosen, p.1.peer ≠ peer) (start : UInt64) (s : Synchronizer) :
    (askAll start chosen s).sent peer = s.sent peer := by
  induction chosen generalizing s with
  | nil => rfl
  | cons first rest ih =>
    exact (ih (fun p member => apart p (List.mem_cons_of_mem _ member)) _).trans
      (sent_askForHeaders_of_ne (apart first List.mem_cons_self) s start _)

theorem askAll_append (start : UInt64) (front back : List (PeerInfo × Nat)) (p : PeerInfo) (i : Nat)
    (s : Synchronizer) :
    askAll start (front ++ (p, i) :: back) s =
      askAll start back (askForHeaders (askAll start front s) p start (requestSize i)) := by
  unfold askAll
  rw [List.foldl_append, List.foldl_cons]

theorem requestSize_mem (place : Nat) : requestSize place ∈ requestSizes := by
  have small : place % requestSizes.length < requestSizes.length := Nat.mod_lt place (by decide)
  rw [requestSize, ← List.getElem_eq_getD (h := small)]
  exact List.getElem_mem small

theorem picked_spec (b : Bearings) (peers chosen : List PeerInfo) (requests : Requests) :
    ∃ picked, (peers.foldl b.pick (chosen, requests)).1 = chosen ++ picked ∧
      picked.Sublist peers ∧ ∀ info ∈ peers, (peers.map PeerInfo.peer).Nodup →
        b.total < info.chain.totalDifficulty →
        requests.mayAsk info.peer b.now b.best = true → info ∈ picked := by
  induction peers generalizing chosen requests with
  | nil =>
    exact ⟨[], (List.append_nil _).symm, .slnil, fun _ member => absurd member List.not_mem_nil⟩
  | cons p rest ih =>
    rw [List.foldl_cons, Bearings.pick]
    split
    · rename_i eligible
      obtain ⟨picked, result, sub, complete⟩ := ih (chosen ++ [p]) (requests.noteAsked p.peer b.now)
      refine ⟨p :: picked, result.trans (List.append_cons _ _ _).symm, sub.cons_cons p, ?_⟩
      rintro info (_ | ⟨_, member⟩) distinct ahead idle
      · exact List.mem_cons_self
      · obtain ⟨fresh, others⟩ := List.nodup_cons.1 distinct
        have apart : p.peer ≠ info.peer := by
          intro same
          rw [same] at fresh
          exact fresh (List.mem_map_of_mem member)
        exact List.mem_cons_of_mem _
          (complete info member others ahead (Requests.mayAsk_noteAsked apart idle))
    · rename_i refused
      obtain ⟨picked, result, sub, complete⟩ := ih chosen requests
      refine ⟨picked, result, sub.cons p, ?_⟩
      rintro info (_ | ⟨_, member⟩) distinct ahead idle
      · exact absurd (by simp [ahead, idle]) refused
      · exact complete info member (List.nodup_cons.1 distinct).2 ahead idle

/-- A cycle sends a listed peer that is ahead and owes nothing exactly one request. -/
theorem sent_runCycle {info : PeerInfo} (listed : info ∈ s.network.peers)
    (distinct : (s.network.peers.map PeerInfo.peer).Nodup)
    (ahead : s.chain.total < info.chain.totalDifficulty)
    (idle : s.requests.mayAsk info.peer s.now s.chain.bestNumber = true)
    (accepts : s.network.accepts info.peer = true) (room : s.chain.bestNumber.toNat + 1 < 2 ^ 64) :
    ∃ take ∈ requestSizes, s.runCycle.sent info.peer =
      s.sent info.peer ++ [.reqBlocksHeaders (s.chain.bestNumber + 1) take] := by
  obtain ⟨picked, result, sub, complete⟩ := picked_spec s.bearings s.network.peers [] s.requests
  rw [List.nil_append] at result
  have chosen := complete info listed distinct ahead idle
  have start : s.bearings.start = s.chain.bestNumber + 1 := by
    change UInt64.ofNat (min (s.chain.bestNumber.toNat + 1) (UInt64.size - 1)) = _
    have below : s.chain.bestNumber.toNat + 1 ≤ UInt64.size - 1 := Nat.le_pred_of_lt room
    rw [Nat.min_eq_left below, UInt64.ofNat_add, UInt64.ofNat_toNat]
    rfl
  have begin : s.runCycle = askAll (s.chain.bestNumber + 1) picked.zipIdx
      { s with requests := (s.choosePeers s.bearings).2 } := by
    rw [← result, ← start]
    rfl
  obtain ⟨front, back, rfl⟩ := List.append_of_mem chosen
  have once := List.Sublist.nodup (sub.map PeerInfo.peer) distinct
  rw [List.map_append, List.map_cons, List.nodup_middle, List.nodup_cons] at once
  -- all the other requests of the cycle go to other peers
  have apart (p : PeerInfo) (member : p ∈ front ∨ p ∈ back) : p.peer ≠ info.peer := by
    intro same
    apply once.1
    rw [← same, ← List.map_append]
    exact List.mem_map_of_mem (List.mem_append.2 member)
  have place : ∃ i, (front ++ info :: back).zipIdx =
      front.zipIdx ++ (info, i) :: back.zipIdx (i + 1) := by
    rw [List.zipIdx_append, List.zipIdx_cons]
    exact ⟨_, rfl⟩
  obtain ⟨i, place⟩ := place
  have before : ∀ p ∈ front.zipIdx, p.1.peer ≠ info.peer := fun p member =>
    apart p.1 (.inl (List.fst_mem_of_mem_zipIdx member))
  have behind : ∀ p ∈ back.zipIdx (i + 1), p.1.peer ≠ info.peer := fun p member =>
    apart p.1 (.inr (List.fst_mem_of_mem_zipIdx member))
  refine ⟨requestSize i, requestSize_mem i, ?_⟩
  · rw [begin, place, askAll_append, sent_askAll_of_not_mem behind,
      sent_askForHeaders_self, sent_askAll_of_not_mem before]
    · rfl
    · obtain ⟨_, _, _, same⟩ := apart_askAll (s.chain.bestNumber + 1) front.zipIdx
        { s with requests := (s.choosePeers s.bearings).2 }
      rw [same]
      exact accepts

end Synchronizer

end BlockSync
