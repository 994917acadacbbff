import BlockSync.Network.Transport
import BlockSync.Proofs.Network.NodeTable

/-! The errors that peers are charged with, one at a time and with anything else done to the
transport in between. The count of a peer runs from zero to what is tolerated and begins anew
with the error that bans the peer. It never runs into the count of another, since no count is
forgotten as long as there are no more peers than counts. -/
namespace BlockSync.Transport

variable {t u : Transport} {peer : PeerId} {known : Finset PeerId} {log : List PeerId}

/-- Takes a node in, unless it is refused. -/
def takeIn (t : Transport) (node : Node) : Transport :=
  match t.activate node with
  | .ok u => u
  | .error _ => t

/-- What is done to a transport, by its connections, by those that send and by the sweep. -/
inductive Operation where
  | charge (peer : PeerId)
  | activate (node : Node)
  | drop (peer : PeerId)
  | disconnect (peer : PeerId)
  | table (operation : NodeTable.Operation)
  | offer (out : Outgoing)
  | deliverNext
  | setChain (chain : ChainInfo)
  | close

def perform (t : Transport) : Operation → Transport
  | .charge peer => t.charge peer
  | .activate node => t.takeIn node
  | .drop peer => (t.drop peer).2
  | .disconnect peer => (t.disconnect peer).2
  | .table operation => { t with nodes := t.nodes.perform operation }
  | .offer out => (t.offer out).2
  | .deliverNext => t.deliverNext
  | .setChain chain => { t with chain }
  | .close => t.close

def run (t : Transport) (operations : List Operation) : Transport :=
  operations.foldl perform t

theorem run_concat (t : Transport) (operations : List Operation) (operation : Operation) :
    t.run (operations ++ [operation]) = (t.run operations).perform operation := by
  simp [run]

/-- The peer that an error is charged to. -/
def Operation.charged : Operation → Option PeerId
  | .charge peer => some peer
  | _ => none

theorem Operation.eq_charge {operation : Operation} (charged : operation.charged = some peer) :
    operation = .charge peer := by
  cases operation <;> cases charged
  rfl

/-- The peers that errors were charged to, in order. -/
def charges (operations : List Operation) : List PeerId :=
  operations.filterMap Operation.charged

theorem charges_concat (operations : List Operation) (operation : Operation) :
    charges (operations ++ [operation]) = charges operations ++ operation.charged.toList := by
  rw [charges, List.filterMap_append]
  cases operation <;> rfl

theorem charges_prefix {part operations : List Operation} (first : part <+: operations) :
    charges part <+: charges operations := by
  obtain ⟨rest, rfl⟩ := first
  exact ⟨charges rest, List.filterMap_append.symm⟩

/-- No error was charged, and no ban noted. -/
structure Spared (t u : Transport) : Prop where
  errors : u.errors = t.errors
  config : u.config = t.config
  bans : u.metrics.bans = t.metrics.bans

theorem spared_drop (t : Transport) (peer : PeerId) : Spared t (t.drop peer).2 := by
  unfold drop
  split <;> exact ⟨rfl, rfl, rfl⟩

theorem spared_disconnect (t : Transport) (peer : PeerId) : Spared t (t.disconnect peer).2 := by
  obtain ⟨errors, config, bans⟩ := spared_drop { t with nodes := t.nodes.modify peer notified } peer
  exact ⟨errors, config, bans⟩

theorem spared_takeIn (t : Transport) (node : Node) : Spared t (t.takeIn node) := by
  unfold takeIn activate add
  cases t.nodes.add node <;> exact ⟨rfl, rfl, rfl⟩

theorem spared_deliverNext (t : Transport) : Spared t t.deliverNext := by
  unfold deliverNext
  split
  · exact ⟨rfl, rfl, rfl⟩
  · dsimp only
    split
    · exact ⟨rfl, rfl, rfl⟩
    · refine ⟨rfl, rfl, ?_⟩
      dsimp only
      split <;> rfl

theorem spared_perform (t : Transport) {operation : Operation} (none : operation.charged = none) :
    Spared t (t.perform operation) := by
  cases operation with
  | charge peer => cases none
  | activate node => exact spared_takeIn t node
  | drop peer => exact spared_drop t peer
  | disconnect peer => exact spared_disconnect t peer
  | offer out =>
    rw [perform, offer]
    split <;> exact ⟨rfl, rfl, rfl⟩
  | deliverNext => exact spared_deliverNext t
  | table | setChain | close => exact ⟨rfl, rfl, rfl⟩

theorem nodes_drop (t : Transport) (peer : PeerId) :
    (t.drop peer).2.nodes = (t.nodes.drop peer).2 := by
  unfold drop NodeTable.drop
  cases found : t.nodes.active.get? peer with
  | some node => rfl
  | none => rw [Table.erase_of_absent found]

theorem nodes_disconnect (t : Transport) (peer : PeerId) :
    (t.disconnect peer).2.nodes = (t.nodes.drop peer).2 := by
  rw [disconnect, nodes_drop]
  dsimp only [NodeTable.drop, NodeTable.modify]
  rw [Table.erase_modify]

/-- One more error is more than what is tolerated. -/
def Exceeds (t : Transport) (peer : PeerId) : Prop :=
  t.config.errorTolerance < t.errorCount peer + 1

instance (t : Transport) (peer : PeerId) : Decidable (t.Exceeds peer) :=
  inferInstanceAs (Decidable (_ < _))

/-- The counts, once that of one peer is set. -/
def counted (t : Transport) (peer : PeerId) (count : UInt32) : Recency PeerId UInt32 :=
  (t.errors.get? peer).2.insert peer count

theorem charge_of_exceeds (exceeds : t.Exceeds peer) :
    t.charge peer =
      let banned := { t with errors := t.counted peer 0, nodes := t.nodes.ban peer }
      let gone := (banned.disconnect peer).2
      { gone with metrics := gone.metrics.noteBan } := by
  rw [Exceeds, errorCount, ← Recency.get?_fst] at exceeds
  exact if_pos exceeds

theorem charge_of_tolerated (tolerated : ¬ t.Exceeds peer) :
    t.charge peer = { t with errors := t.counted peer (t.errorCount peer + 1) } := by
  have held : t.errorCount peer = (t.errors.get? peer).1.getD 0 := by
    rw [errorCount, Recency.get?_fst]
  rw [Exceeds, held] at tolerated
  rw [held]
  exact if_neg tolerated

/-- The error bans its peer: the connection is closed and the count begins anew. It is the
one after those that are tolerated. -/
structure Bans (t u : Transport) (peer : PeerId) : Prop where
  full : t.errorCount peer = t.config.errorTolerance
  nodes : u.nodes = t.nodes.expel peer
  banned : u.nodes.isBanned peer = true
  inactive : u.nodes.isActive peer = false
  count : u.errorCount peer = 0
  noted : u.metrics.bans = t.metrics.bans + 1

/-- The error is counted, and nothing else is done. -/
structure Counts (t u : Transport) (peer : PeerId) : Prop where
  same : u = { t with errors := u.errors }
  count : (u.errorCount peer).toNat = (t.errorCount peer).toNat + 1

theorem Counts.not_bans (h : Counts t u peer) : ¬ Bans t u peer := by
  intro bans
  have noted := bans.noted
  rw [h.same] at noted
  exact absurd noted (Nat.ne_of_lt (Nat.lt_succ_self _))

theorem nodes_charge_of_exceeds (exceeds : t.Exceeds peer) :
    (t.charge peer).nodes = t.nodes.expel peer := by
  rw [charge_of_exceeds exceeds]
  exact nodes_disconnect _ peer

theorem errors_charge_of_exceeds (exceeds : t.Exceeds peer) :
    (t.charge peer).errors = t.counted peer 0 := by
  rw [charge_of_exceeds exceeds]
  exact (spared_disconnect _ peer).errors

theorem noted_charge_of_exceeds (exceeds : t.Exceeds peer) :
    (t.charge peer).metrics.bans = t.metrics.bans + 1 := by
  rw [charge_of_exceeds exceeds]
  exact congrArg (· + 1) (spared_disconnect _ peer).bans

theorem config_charge (t : Transport) (peer : PeerId) : (t.charge peer).config = t.config := by
  by_cases exceeds : t.Exceeds peer
  · rw [charge_of_exceeds exceeds]
    exact (spared_disconnect _ peer).config
  · rw [charge_of_tolerated exceeds]

/-- No other peer is disconnected. -/
theorem get?_active_charge {other : PeerId} (apart : other ≠ peer) :
    (t.charge peer).nodes.active.get? other = t.nodes.active.get? other := by
  by_cases exceeds : t.Exceeds peer
  · rw [nodes_charge_of_exceeds exceeds, NodeTable.get?_active_expel, if_neg apart.symm]
  · rw [charge_of_tolerated exceeds]

theorem config_run (t : Transport) (operations : List Operation) :
    (t.run operations).config = t.config := by
  induction operations using List.reverseRecOn with
  | nil => rfl
  | append_singleton operations operation ih =>
    rw [run_concat, ← ih]
    cases charged : operation.charged with
    | none => exact (spared_perform _ charged).config
    | some peer =>
      obtain rfl := Operation.eq_charge charged
      exact config_charge _ peer

/-- The counts of the peers that were charged, each begun anew with every error that exceeds
what is tolerated. -/
structure Tallied (known : Finset PeerId) (log : List PeerId) (t : Transport) : Prop where
  errors : Recency.Maps known t.errors t.errors.peek?
  count : ∀ peer, (t.errorCount peer).toNat =
    log.count peer % (t.config.errorTolerance.toNat + 1)

theorem tallied_new (config : NetworkConfig) (own : NodeId) (bootNodes : List BootNode)
    (room : known.card ≤ maxCharged) : Tallied known [] (new config own bootNodes) where
  errors := Recency.Maps.new room
  count _ := rfl

theorem Tallied.congr (h : Tallied known log t) (errors : u.errors = t.errors)
    (config : u.config = t.config) : Tallied known log u := by
  refine ⟨?_, ?_⟩
  · rw [errors]
    exact h.errors
  · intro peer
    rw [config, ← h.count peer, errorCount, errorCount, errors]

theorem Tallied.spared (h : Tallied known log t) (spared : Spared t u) : Tallied known log u :=
  h.congr spared.errors spared.config

theorem Tallied.counted (h : Tallied known log t) (member : peer ∈ known) (count : UInt32) :
    Recency.Maps known (t.counted peer count)
      fun other => if peer = other then some count else t.errors.peek? other :=
  (h.errors.get? peer).insert member count

/-- A count that begins anew after `limit` is a remainder. -/
theorem add_one_mod (n limit : Nat) :
    (n + 1) % (limit + 1) =
      if limit < n % (limit + 1) + 1 then 0 else n % (limit + 1) + 1 := by
  have below : n % (limit + 1) < limit + 1 := Nat.mod_lt n (Nat.succ_pos limit)
  rw [← Nat.mod_add_mod]
  split
  · have last : n % (limit + 1) + 1 = limit + 1 := by omega
    rw [last, Nat.mod_self]
  · exact Nat.mod_eq_of_lt (by omega)

/-- Too few errors were charged for a count to overflow. -/
theorem Tallied.toNat_add_one (h : Tallied known log t) (few : log.length + 1 < 2 ^ 32)
    (peer : PeerId) :
    (t.errorCount peer + 1).toNat =
      log.count peer % (t.config.errorTolerance.toNat + 1) + 1 := by
  have most : (t.errorCount peer).toNat ≤ log.length := by
    rw [h.count]
    exact Nat.le_trans (Nat.mod_le _ _) List.count_le_length
  rw [UInt32.toNat_add, h.count]
  rw [h.count] at most
  exact Nat.mod_eq_of_lt (Nat.lt_of_le_of_lt (Nat.succ_le_succ most) few)

theorem Tallied.exceeds_iff (h : Tallied known log t) (few : log.length + 1 < 2 ^ 32) :
    t.Exceeds peer ↔ t.config.errorTolerance.toNat <
      log.count peer % (t.config.errorTolerance.toNat + 1) + 1 := by
  rw [Exceeds, UInt32.lt_iff_toNat_lt, h.toNat_add_one few]

/-- The errors that exceed what is tolerated are those that make a multiple of one more. -/
theorem Tallied.exceeds_iff_dvd (h : Tallied known log t) (few : log.length + 1 < 2 ^ 32) :
    t.Exceeds peer ↔ t.config.errorTolerance.toNat + 1 ∣ (log ++ [peer]).count peer := by
  rw [h.exceeds_iff few, List.count_append, List.count_singleton_self, Nat.dvd_iff_mod_eq_zero,
    add_one_mod]
  split <;> simp_all

/-- What the counts are after an error: one of them is one higher, or begins anew. -/
theorem Tallied.errors_charge (h : Tallied known log t) (member : peer ∈ known) :
    Recency.Maps known (t.charge peer).errors (t.charge peer).errors.peek? ∧
      ∀ other, (t.charge peer).errorCount other =
        if peer = other then (if t.Exceeds peer then 0 else t.errorCount peer + 1)
        else t.errorCount other := by
  have set (count : UInt32) (errors : (t.charge peer).errors = t.counted peer count) :
      Recency.Maps known (t.charge peer).errors (t.charge peer).errors.peek? ∧
        ∀ other, (t.charge peer).errorCount other =
          if peer = other then count else t.errorCount other := by
    have maps := h.counted member count
    refine ⟨?_, ?_⟩
    · rw [errors]
      exact maps.congr maps.value
    · intro other
      rw [errorCount, errors, maps.value]
      split <;> rfl
  by_cases exceeds : t.Exceeds peer
  · rw [if_pos exceeds]
    exact set 0 (errors_charge_of_exceeds exceeds)
  · rw [if_neg exceeds]
    exact set (t.errorCount peer + 1) (by rw [charge_of_tolerated exceeds])

theorem Tallied.charge (h : Tallied known log t) (member : peer ∈ known)
    (few : log.length + 1 < 2 ^ 32) :
    Tallied known (log ++ [peer]) (t.charge peer) := by
  obtain ⟨maps, counts⟩ := h.errors_charge member
  refine ⟨maps, ?_⟩
  intro other
  rw [counts, config_charge, List.count_append]
  by_cases same : peer = other
  · rw [← same, if_pos rfl, List.count_singleton_self, add_one_mod]
    have limit : t.Exceeds peer ↔ _ := h.exceeds_iff few
    by_cases exceeds : t.Exceeds peer
    · rw [if_pos exceeds, if_pos (limit.1 exceeds)]
      rfl
    · rw [if_neg exceeds, if_neg (mt limit.2 exceeds), h.toNat_add_one few]
  · rw [if_neg same, List.count_singleton, if_neg (by simpa using same), Nat.add_zero, h.count]

theorem tallied_run {start : Transport} (h : Tallied known [] start) (operations : List Operation)
    (few : (charges operations).length < 2 ^ 32) (inside : ∀ peer ∈ charges operations, peer ∈ known) :
    Tallied known (charges operations) (start.run operations) := by
  induction operations using List.reverseRecOn with
  | nil => exact h
  | append_singleton operations operation ih =>
    have shorter := charges_prefix (List.prefix_append operations [operation])
    have before := ih (Nat.lt_of_le_of_lt shorter.length_le few)
      fun peer listed => inside peer (shorter.subset listed)
    rw [charges_concat] at few inside
    rw [run_concat, charges_concat]
    cases charged : operation.charged with
    | none =>
      rw [Option.toList_none, List.append_nil]
      exact before.spared (spared_perform _ charged)
    | some peer =>
      obtain rfl := Operation.eq_charge charged
      rw [List.length_append] at few
      exact before.charge (inside peer (List.mem_append_right _ List.mem_cons_self)) few

/-- What an error does: the one that makes a multiple of one more than is tolerated bans its
peer, any other is counted, and no other peer is touched. -/
theorem Tallied.outcome (h : Tallied known log t) (member : peer ∈ known)
    (few : log.length + 1 < 2 ^ 32) :
    (Bans t (t.charge peer) peer ↔ t.config.errorTolerance.toNat + 1 ∣ (log ++ [peer]).count peer) ∧
    (¬ t.config.errorTolerance.toNat + 1 ∣ (log ++ [peer]).count peer →
      Counts t (t.charge peer) peer) ∧
    ∀ other, other ≠ peer → (t.charge peer).errorCount other = t.errorCount other ∧
      (t.charge peer).nodes.active.get? other = t.nodes.active.get? other := by
  obtain ⟨-, counts⟩ := h.errors_charge member
  have limit : t.Exceeds peer ↔ _ := h.exceeds_iff few
  have reached : t.Exceeds peer ↔ _ := h.exceeds_iff_dvd few
  have bans (exceeds : t.Exceeds peer) : Bans t (t.charge peer) peer := by
    have nodes := nodes_charge_of_exceeds exceeds
    refine ⟨?_, nodes, ?_, ?_, ?_, noted_charge_of_exceeds exceeds⟩
    · rw [← UInt32.toNat_inj, h.count]
      exact Nat.le_antisymm (Nat.le_of_lt_succ (Nat.mod_lt _ (Nat.succ_pos _)))
        (Nat.le_of_lt_succ (limit.1 exceeds))
    · rw [nodes, NodeTable.isBanned_expel]
    · rw [nodes, NodeTable.isActive, Table.contains_eq_false_iff, NodeTable.get?_active_expel,
        if_pos rfl]
    · rw [counts, if_pos rfl, if_pos exceeds]
  have tolerates (tolerated : ¬ t.Exceeds peer) : Counts t (t.charge peer) peer := by
    refine ⟨?_, ?_⟩
    · rw [charge_of_tolerated tolerated]
    · rw [counts, if_pos rfl, if_neg tolerated, h.toNat_add_one few, h.count]
  refine ⟨?_, ?_, ?_⟩
  · rw [← reached]
    refine ⟨?_, bans⟩
    intro banned
    by_contra tolerated
    exact (tolerates tolerated).not_bans banned
  · rw [← reached]
    exact tolerates
  · intro other apart
    refine ⟨?_, get?_active_charge apart⟩
    rw [counts, if_neg apart.symm]

end BlockSync.Transport
