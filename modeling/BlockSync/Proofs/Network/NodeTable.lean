import BlockSync.Network.NodeTable
import BlockSync.Proofs.Recency.Uses

/-! Runs of the node table. Whatever is done to it in whatever order, it keeps within its bounds,
has no node twice, does not take in the host itself and has no peer both active and banned. Bans
are the only thing that it forgets: one is lifted by as many bans of others as there is room
for, and until then the peer is neither active nor queued anew. -/
namespace BlockSync

theorem Node.node_enqueue (node : Node) (frame : Bytes) : (node.enqueue frame).2.node = node.node := by
  unfold Node.enqueue
  split <;> rfl

namespace NodeTable

variable {own : NodeId} {maxActive maxWaiting : Nat} {t u : NodeTable} {peer : PeerId}

/-- Bans a peer and closes its connection. -/
def expel (t : NodeTable) (peer : PeerId) : NodeTable :=
  ((t.ban peer).drop peer).2

/-- Takes in a node, unless it is refused. -/
def takeIn (t : NodeTable) (node : Node) : NodeTable :=
  match t.add node with
  | .ok u => u
  | .error _ => t

/-- What is done to a node table: by the handshake, by discovery, by the sweep, by whoever
sends, and where an error is charged. -/
inductive Operation where
  | addBootNodes (nodes : List BootNode)
  | refill
  | addCandidate (c : Candidate)
  | takeCandidate
  | add (node : Node)
  | drop (peer : PeerId)
  | touch (peer : PeerId) (now : Instant)
  | setChain (peer : PeerId) (chain : ChainInfo)
  | enqueue (peer : PeerId) (frame : Bytes)
  | dropStale (now : Instant) (silence : Duration)
  | clear
  | relocate (address : SocketAddress)
  | expel (peer : PeerId)

def perform (t : NodeTable) : Operation → NodeTable
  | .addBootNodes nodes => t.addBootNodes nodes
  | .refill => t.refill
  | .addCandidate c => (t.addCandidate c).2
  | .takeCandidate => t.takeCandidate.2
  | .add node => t.takeIn node
  | .drop peer => (t.drop peer).2
  | .touch peer now => t.touch peer now
  | .setChain peer chain => t.setChain peer chain
  | .enqueue peer frame => (t.enqueue peer frame).2
  | .dropStale now silence => (t.dropStale now silence).2
  | .clear => t.clear.2
  | .relocate address => { t with selfAddress := address }
  | .expel peer => t.expel peer

def run (t : NodeTable) (operations : List Operation) : NodeTable :=
  operations.foldl perform t

theorem run_concat (t : NodeTable) (operations : List Operation) (operation : Operation) :
    t.run (operations ++ [operation]) = (t.run operations).perform operation := by
  simp [run]

theorem refill_eq (t : NodeTable) :
    t.refill = (t.bootNodes.map fun b => ⟨b.node, b.address, true⟩).foldl
      (fun t c => (t.addCandidate c).2) t := by
  rw [List.foldl_map]
  rfl

/-- The peers that were banned, in order. -/
def bans (operations : List Operation) : List PeerId :=
  operations.filterMap fun
    | .expel peer => some peer
    | _ => none

/-- The peers that were banned after the last ban of one. -/
def bannedSince (peer : PeerId) (operations : List Operation) : Finset PeerId :=
  ((bans operations).reverse.takeWhile (· ≠ peer)).toFinset

/-- What is queued under a peer id. -/
def waitingAs (t : NodeTable) (peer : PeerId) : List Candidate :=
  t.waiting.filter fun c => c.node.peerId = peer

structure Orderly (own : NodeId) (maxActive maxWaiting : Nat) (t : NodeTable) : Prop where
  host : t.self = own
  active_bound : t.maxActive = maxActive
  waiting_bound : t.maxWaiting = maxWaiting
  few_active : t.active.size ≤ maxActive
  few_waiting : t.waiting.length ≤ maxWaiting
  active_once : t.active.Distinct
  filed : ∀ entry ∈ t.active.entries, entry.2.node.peerId = entry.1
  host_inactive : ∀ entry ∈ t.active.entries, entry.2.node ≠ own
  host_unqueued : ∀ c ∈ t.waiting, c.node ≠ own
  waiting_once : (t.waiting.map Candidate.node).Nodup
  unbanned : ∀ peer, t.isActive peer = true → t.isBanned peer = false

theorem orderly_new (own : NodeId) (address : SocketAddress) (maxActive maxWaiting : Nat) :
    Orderly own maxActive maxWaiting (.new own address maxActive maxWaiting) where
  host := rfl
  active_bound := rfl
  waiting_bound := rfl
  few_active := Nat.zero_le _
  few_waiting := Nat.zero_le _
  active_once := Table.distinct_empty
  filed _ listed := absurd listed List.not_mem_nil
  host_inactive _ listed := absurd listed List.not_mem_nil
  host_unqueued _ listed := absurd listed List.not_mem_nil
  waiting_once := List.nodup_nil
  unbanned _ active := by cases active

theorem isBanned_expel (t : NodeTable) (peer : PeerId) : (t.expel peer).isBanned peer = true :=
  Recency.contains_insert_self t.banned peer ()

theorem get?_active_expel (t : NodeTable) (peer other : PeerId) :
    (t.expel peer).active.get? other = if peer = other then none else t.active.get? other :=
  Table.get?_erase t.active peer other

namespace Orderly

/-- Nodes may leave, and nothing is wrong with those that stay. -/
theorem shrink (h : Orderly own maxActive maxWaiting t) {active : Table PeerId Node}
    {waiting : List Candidate} (fewer : active.entries.Sublist t.active.entries)
    (part : waiting.Sublist t.waiting) :
    Orderly own maxActive maxWaiting { t with active, waiting } where
  host := h.host
  active_bound := h.active_bound
  waiting_bound := h.waiting_bound
  few_active := Nat.le_trans fewer.length_le h.few_active
  few_waiting := Nat.le_trans part.length_le h.few_waiting
  active_once := h.active_once.sublist (fewer.map _)
  filed entry listed := h.filed entry (fewer.subset listed)
  host_inactive entry listed := h.host_inactive entry (fewer.subset listed)
  host_unqueued c listed := h.host_unqueued c (part.subset listed)
  waiting_once := h.waiting_once.sublist (part.map _)
  unbanned peer active :=
    h.unbanned peer (Table.contains_iff_mem.2 ((fewer.map _).subset (Table.contains_iff_mem.1 active)))

theorem addCandidate (h : Orderly own maxActive maxWaiting t) (c : Candidate) :
    Orderly own maxActive maxWaiting (t.addCandidate c).2 := by
  unfold NodeTable.addCandidate
  split
  · rename_i welcome
    simp only [welcomes, Bool.and_eq_true, Bool.not_eq_true', decide_eq_true_eq, List.all_eq_true]
      at welcome
    obtain ⟨⟨⟨⟨⟨foreign, -⟩, -⟩, -⟩, room⟩, fresh⟩ := welcome
    refine { h with few_waiting := ?_, host_unqueued := ?_, waiting_once := ?_ }
    · rw [List.length_append, ← h.waiting_bound]
      exact room
    · intro w listed
      rcases List.mem_append.1 listed with old | new
      · exact h.host_unqueued w old
      · rw [List.mem_singleton.1 new, ← h.host]
        exact foreign
    · rw [List.map_append, List.nodup_append]
      refine ⟨h.waiting_once, List.nodup_singleton _, ?_⟩
      intro node listed other same
      obtain ⟨w, old, rfl⟩ := List.mem_map.1 listed
      rw [List.mem_singleton.1 same]
      exact fresh w old
  · exact h

theorem addCandidates (h : Orderly own maxActive maxWaiting t) (candidates : List Candidate) :
    Orderly own maxActive maxWaiting
      (candidates.foldl (fun t c => (t.addCandidate c).2) t) := by
  induction candidates generalizing t with
  | nil => exact h
  | cons c rest ih => exact ih (h.addCandidate c)

theorem refill (h : Orderly own maxActive maxWaiting t) :
    Orderly own maxActive maxWaiting t.refill := by
  rw [refill_eq]
  exact h.addCandidates _

/-- A node may change as long as it keeps its id. -/
theorem modify (h : Orderly own maxActive maxWaiting t) {f : Node → Node}
    (same : ∀ node, t.active.get? peer = some node → (f node).node = node.node) :
    Orderly own maxActive maxWaiting (t.modify peer f) := by
  have kept : ∀ entry ∈ (t.active.modify peer f).entries,
      ∃ old ∈ t.active.entries, entry.1 = old.1 ∧ entry.2.node = old.2.node := by
    intro entry listed
    obtain ⟨old, member, rfl⟩ := List.mem_map.1 listed
    refine ⟨old, member, ?_⟩
    split
    · rename_i here
      exact ⟨rfl, same old.2 (here ▸ h.active_once.get?_of_mem member)⟩
    · exact ⟨rfl, rfl⟩
  refine { h with few_active := ?_, active_once := ?_, filed := ?_, host_inactive := ?_,
                  unbanned := ?_ }
  · exact Nat.le_trans (Nat.le_of_eq (List.length_map _)) h.few_active
  · exact h.active_once.modify peer f
  · intro entry listed
    obtain ⟨old, member, key, node⟩ := kept entry listed
    rw [node, key, h.filed old member]
  · intro entry listed
    obtain ⟨old, member, -, node⟩ := kept entry listed
    rw [node]
    exact h.host_inactive old member
  · intro other active
    have keys := Table.keys_modify t.active peer f
    exact h.unbanned other (Table.contains_iff_mem.2 (keys ▸ Table.contains_iff_mem.1 active))

end Orderly

theorem check_eq_ok_iff {node : NodeId} {address : SocketAddress} :
    t.check node address = .ok () ↔
      (node ≠ t.self ∧ address ≠ t.selfAddress) ∧ t.isBanned node.peerId = false ∧
        t.isActive node.peerId = false ∧ t.active.size < t.maxActive := by
  unfold check
  dsimp only
  split
  · rename_i same
    simp [not_or.symm, same]
  · rename_i foreign
    split
    · simp_all
    · split
      · simp_all
      · split
        · simp_all [isFull]
        · simp_all [isFull]

theorem add_eq_ok_iff {node : Node} :
    t.add node = .ok u ↔ t.check node.node node.listenAddress = .ok () ∧
      u = { t with active := t.active.insert node.peer node } := by
  unfold add
  cases t.check node.node node.listenAddress with
  | error refusal => simp [Except.map]
  | ok _ => simp [Except.map, eq_comm]

namespace Orderly

theorem add (h : Orderly own maxActive maxWaiting t) {node : Node} (added : t.add node = .ok u) :
    Orderly own maxActive maxWaiting u := by
  obtain ⟨accepted, rfl⟩ := add_eq_ok_iff.1 added
  obtain ⟨⟨foreign, -⟩, unbanned, inactive, room⟩ := check_eq_ok_iff.1 accepted
  have absent : t.active.get? node.peer = none := Table.contains_eq_false_iff.1 inactive
  have fewer : (t.active.erase node.peer).entries.Sublist t.active.entries := List.filter_sublist
  refine { h with few_active := ?_, active_once := ?_, filed := ?_, host_inactive := ?_,
                  unbanned := ?_ }
  · rw [Table.size_insert_of_absent node absent, ← h.active_bound]
    exact room
  · exact h.active_once.insert node.peer node
  · rintro entry (_ | ⟨_, old⟩)
    · rfl
    · exact h.filed entry (fewer.subset old)
  · rintro entry (_ | ⟨_, old⟩)
    · rw [← h.host]
      exact foreign
    · exact h.host_inactive entry (fewer.subset old)
  · intro other active
    rcases List.mem_cons.1 (Table.contains_iff_mem.1 active) with rfl | old
    · exact unbanned
    · exact h.unbanned other (Table.contains_iff_mem.2 ((fewer.map _).subset old))

theorem takeIn (h : Orderly own maxActive maxWaiting t) (node : Node) :
    Orderly own maxActive maxWaiting (t.takeIn node) := by
  unfold NodeTable.takeIn
  split
  · rename_i added
    exact h.add added
  · exact h

theorem enqueue (h : Orderly own maxActive maxWaiting t) (peer : PeerId) (frame : Bytes) :
    Orderly own maxActive maxWaiting (t.enqueue peer frame).2 := by
  unfold NodeTable.enqueue
  split
  · rename_i node found
    refine h.modify fun other same => ?_
    rw [found, Option.some.injEq] at same
    rw [← same]
    exact Node.node_enqueue node frame
  · exact h

theorem expel (h : Orderly own maxActive maxWaiting t) (peer : PeerId) :
    Orderly own maxActive maxWaiting (t.expel peer) := by
  have fewer : (t.active.erase peer).entries.Sublist t.active.entries := List.filter_sublist
  refine { h.shrink fewer (List.Sublist.refl t.waiting) with unbanned := ?_ }
  intro other active
  have listed := Table.contains_iff_mem.1 active
  have apart : peer ≠ other := by
    rintro rfl
    simp [NodeTable.expel, NodeTable.ban, NodeTable.drop, Table.erase] at listed
  have before := h.unbanned other (Table.contains_iff_mem.2 ((fewer.map _).subset listed))
  rw [Bool.eq_false_iff] at before ⊢
  exact fun banned => (Recency.contains_insert banned).elim apart before

theorem perform (h : Orderly own maxActive maxWaiting t) (operation : Operation) :
    Orderly own maxActive maxWaiting (t.perform operation) := by
  have stay := List.Sublist.refl t.waiting
  cases operation with
  | addBootNodes nodes =>
    have noted : Orderly own maxActive maxWaiting { t with bootNodes := t.bootNodes ++ nodes } :=
      { h with }
    exact noted.refill
  | refill => exact h.refill
  | addCandidate c => exact h.addCandidate c
  | takeCandidate => exact h.shrink (List.Sublist.refl _) (List.tail_sublist _)
  | add node => exact h.takeIn node
  | drop peer => exact h.shrink List.filter_sublist stay
  | touch peer now => exact h.modify fun _ _ => rfl
  | setChain peer chain => exact h.modify fun _ _ => rfl
  | enqueue peer frame => exact h.enqueue peer frame
  | dropStale now silence => exact h.shrink List.filter_sublist stay
  | clear => exact h.shrink (List.nil_sublist _) (List.nil_sublist _)
  | relocate address => exact { h with }
  | expel peer => exact h.expel peer

end Orderly

theorem orderly_run (h : Orderly own maxActive maxWaiting t) (operations : List Operation) :
    Orderly own maxActive maxWaiting (t.run operations) := by
  induction operations generalizing t with
  | nil => exact h
  | cons operation rest ih => exact ih (h.perform operation)

theorem banned_addCandidate (t : NodeTable) (c : Candidate) :
    (t.addCandidate c).2.banned = t.banned := by
  unfold addCandidate
  split <;> rfl

theorem waitingAs_addCandidate (banned : t.isBanned peer = true) (c : Candidate) :
    (t.addCandidate c).2.waitingAs peer = t.waitingAs peer := by
  unfold addCandidate
  split
  · rename_i welcome
    have other : c.node.peerId ≠ peer := by
      rintro rfl
      simp [welcomes, banned] at welcome
    rw [waitingAs, List.filter_append, List.filter_cons_of_neg (by simpa using other),
      List.filter_nil, List.append_nil]
    rfl
  · rfl

theorem banned_addCandidates (candidates : List Candidate) (t : NodeTable) :
    (candidates.foldl (fun t c => (t.addCandidate c).2) t).banned = t.banned := by
  induction candidates generalizing t with
  | nil => rfl
  | cons c rest ih => rw [List.foldl_cons, ih, banned_addCandidate]

theorem waitingAs_addCandidates (candidates : List Candidate) (banned : t.isBanned peer = true) :
    (candidates.foldl (fun t c => (t.addCandidate c).2) t).waitingAs peer = t.waitingAs peer := by
  induction candidates generalizing t with
  | nil => rfl
  | cons c rest ih =>
    have still : (t.addCandidate c).2.isBanned peer = true := by
      rw [isBanned, banned_addCandidate]
      exact banned
    rw [List.foldl_cons, ih still, waitingAs_addCandidate banned]

/-- Nothing that is done to the table queues a banned peer anew. -/
theorem waitingAs_perform (banned : t.isBanned peer = true) (operation : Operation) :
    ((t.perform operation).waitingAs peer).Sublist (t.waitingAs peer) := by
  cases operation with
  | addBootNodes nodes =>
    have kept := waitingAs_addCandidates (t := { t with bootNodes := t.bootNodes ++ nodes })
      ((t.bootNodes ++ nodes).map fun b => ⟨b.node, b.address, true⟩) banned
    rw [perform, addBootNodes, refill_eq, kept]
    exact List.Sublist.refl _
  | refill =>
    rw [perform, refill_eq, waitingAs_addCandidates _ banned]
  | addCandidate c =>
    rw [perform, waitingAs_addCandidate banned]
  | takeCandidate => exact (List.tail_sublist _).filter _
  | add node =>
    rw [perform, takeIn]
    split
    · rename_i added
      obtain ⟨-, rfl⟩ := add_eq_ok_iff.1 added
      exact List.Sublist.refl _
    · exact List.Sublist.refl _
  | enqueue peer frame =>
    rw [perform, enqueue]
    split <;> exact List.Sublist.refl _
  | clear => exact List.nil_sublist _
  | drop | touch | setChain | dropStale | relocate | expel => exact List.Sublist.refl _

/-- Bans are noted in the order in which they come, and nothing else is. -/
theorem banned_perform (t : NodeTable) (operation : Operation) :
    (t.perform operation).banned =
      (bans [operation]).foldl (fun banned peer => banned.insert peer ()) t.banned := by
  cases operation with
  | addBootNodes nodes => rw [perform, addBootNodes, refill_eq, banned_addCandidates]; rfl
  | refill => rw [perform, refill_eq, banned_addCandidates]; rfl
  | addCandidate c => exact banned_addCandidate t c
  | add node =>
    rw [perform, takeIn]
    split
    · rename_i added
      obtain ⟨-, rfl⟩ := add_eq_ok_iff.1 added
      rfl
    · rfl
  | enqueue peer frame =>
    rw [perform, enqueue]
    split <;> rfl
  | takeCandidate | clear | drop | touch | setChain | dropStale | relocate | expel => rfl

theorem banned_run (t : NodeTable) (operations : List Operation) :
    (t.run operations).banned =
      (bans operations).foldl (fun banned peer => banned.insert peer ()) t.banned := by
  induction operations using List.reverseRecOn with
  | nil => rfl
  | append_singleton operations operation ih =>
    rw [run_concat, banned_perform, ih, ← List.foldl_append, bans, bans, ← List.filterMap_append]
    rfl

/-- Whatever is done to a table, it stays within its bounds and in order. A peer is banned from
its last ban until as many others have been banned as there is room for; as long as it is, it is
not active and is not queued anew. A node is taken in exactly if its id passes the check with
the address that it is reached at and the port that it announced. -/
theorem table_of_run (own : NodeId) (address : SocketAddress) (maxActive maxWaiting : Nat)
    (operations : List Operation) :
    let t := (new own address maxActive maxWaiting).run operations
    Orderly own maxActive maxWaiting t ∧
    (∀ peer, t.isBanned peer = true ↔
      peer ∈ bans operations ∧ (bannedSince peer operations).card < maxBanned) ∧
    (∀ peer ∈ bans operations, (bannedSince peer operations).card < maxBanned →
      t.isActive peer = false ∧
        ∀ operation, ((t.perform operation).waitingAs peer).Sublist (t.waitingAs peer)) ∧
    ∀ node : Node, (∃ u, t.add node = .ok u) ↔
      t.check node.node (.new node.address.ip node.listenPort) = .ok () := by
  intro t
  have orderly : Orderly own maxActive maxWaiting t := orderly_run (orderly_new _ _ _ _) operations
  have banned_iff (peer : PeerId) : t.isBanned peer = true ↔
      peer ∈ bans operations ∧ (bannedSince peer operations).card < maxBanned := by
    have fresh : (Recency.new maxBanned : Recency PeerId Unit).Logged [] :=
      Recency.logged_new maxBanned
    have logged := fresh.insertAll (bans operations) ()
    rw [isBanned, banned_run, new, logged.contains_iff, Recency.capacity_insertAll,
      List.append_nil, List.mem_reverse]
    rfl
  refine ⟨orderly, banned_iff, ?_, ?_⟩
  · intro peer listed few
    have banned := (banned_iff peer).2 ⟨listed, few⟩
    refine ⟨?_, waitingAs_perform banned⟩
    rw [Bool.eq_false_iff]
    intro active
    rw [orderly.unbanned peer active] at banned
    cases banned
  · intro node
    constructor
    · rintro ⟨u, added⟩
      exact (add_eq_ok_iff.1 added).1
    · intro accepted
      exact ⟨_, add_eq_ok_iff.2 ⟨accepted, rfl⟩⟩

/-- A node that is banned once it was taken in does not come back, neither by itself nor as a
candidate. -/
theorem table_of_banned_node :
    let node : Node :=
      { node := ⟨1⟩, address := .new (.v4 1) 1, direction := .inbound, chain := .empty, latency := 0
        listenPort := 1, revision := "", lastSeen := 0, outbox := .new 1 }
    let operations : List Operation :=
      [.add node, .expel node.peer, .add node, .addCandidate ⟨node.node, node.address, false⟩]
    let t := (new ⟨0⟩ (.new (.v4 0) 0) 1 1).run operations
    t.isBanned node.peer = true ∧ t.isActive node.peer = false ∧
      ((t.perform .refill).waitingAs node.peer).Sublist (t.waitingAs node.peer) := by
  intro node operations t
  obtain ⟨-, banned_iff, out, -⟩ := table_of_run ⟨0⟩ (.new (.v4 0) 0) 1 1 operations
  have listed : node.peer ∈ bans operations := List.mem_singleton.2 rfl
  have few : (bannedSince node.peer operations).card < maxBanned := by
    simp [bannedSince, bans, operations, maxBanned]
  obtain ⟨inactive, unqueued⟩ := out _ listed few
  exact ⟨(banned_iff _).2 ⟨listed, few⟩, inactive, unqueued .refill⟩

end NodeTable

end BlockSync
