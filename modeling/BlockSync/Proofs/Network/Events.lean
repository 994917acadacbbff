import BlockSync.Proofs.Network.NodeTable

/-! What may happen to any node table at all, with bans that leave their connection open for the
moment. Each event takes in one node that passed the check, or none, and nodes leave otherwise.
So the number of active nodes keeps to its bound, each is filed once under its own peer id, and
a peer is active although it is banned only if it was when the events began or had a connection
when it was banned. -/
namespace BlockSync.NodeTable

variable {t u v : NodeTable} {peer : PeerId} {node : Node}

/-- One thing that happens to a table while its lock is held. Whoever expels a peer lets go of
the lock between the ban and the end of the connection. -/
inductive Event where
  | operation (operation : Operation)
  | ban (peer : PeerId)

def undergo (t : NodeTable) : Event → NodeTable
  | .operation operation => t.perform operation
  | .ban peer => t.ban peer

/-- The table after some events. -/
def after (t : NodeTable) (events : List Event) : NodeTable :=
  events.foldl undergo t

/-- Every node stands under its own peer id. -/
def Filed (t : NodeTable) : Prop :=
  ∀ entry ∈ t.active.entries, entry.2.node.peerId = entry.1

/-- No active peer is new, and the bound stays. -/
structure Thins (t u : NodeTable) : Prop where
  bound : u.maxActive = t.maxActive
  keys : (u.active.entries.map (·.1)).Sublist (t.active.entries.map (·.1))
  filed : t.Filed → u.Filed

namespace Thins

theorem refl (t : NodeTable) : Thins t t :=
  ⟨rfl, .refl _, id⟩

theorem trans (h : Thins t u) (further : Thins u v) : Thins t v :=
  ⟨further.bound.trans h.bound, further.keys.trans h.keys, further.filed ∘ h.filed⟩

/-- Nodes may leave, and what is no matter of the active ones may be anything. -/
theorem of_sublist (bound : u.maxActive = t.maxActive)
    (fewer : u.active.entries.Sublist t.active.entries) : Thins t u :=
  ⟨bound, fewer.map _, fun filed entry listed => filed entry (fewer.subset listed)⟩

theorem isActive (h : Thins t u) (active : u.isActive peer = true) : t.isActive peer = true :=
  Table.contains_iff_mem.2 (h.keys.subset (Table.contains_iff_mem.1 active))

end Thins

theorem thins_addCandidate (t : NodeTable) (c : Candidate) : Thins t (t.addCandidate c).2 := by
  unfold addCandidate
  split
  · exact .of_sublist rfl (.refl _)
  · exact .refl t

theorem thins_refill (t : NodeTable) : Thins t t.refill := by
  rw [refill_eq]
  induction t.bootNodes.map fun b => (⟨b.node, b.address, true⟩ : Candidate) generalizing t with
  | nil => exact .refl t
  | cons c rest ih => exact (thins_addCandidate t c).trans (ih _)

/-- A node may be changed, if it keeps the peer id that it is filed under. -/
theorem thins_modify {f : Node → Node}
    (same : t.Filed → ∀ entry ∈ t.active.entries, entry.1 = peer → (f entry.2).node.peerId = peer) :
    Thins t (t.modify peer f) := by
  refine ⟨rfl, ?_, ?_⟩
  · have keys := Table.keys_modify t.active peer f
    exact keys ▸ .refl _
  · intro filed entry listed
    obtain ⟨old, member, rfl⟩ := List.mem_map.1 listed
    split
    · rename_i here
      exact (same filed old member here).trans here.symm
    · exact filed old member

theorem thins_enqueue (t : NodeTable) (peer : PeerId) (frame : Bytes) :
    Thins t (t.enqueue peer frame).2 := by
  unfold enqueue
  split
  · rename_i node found
    refine thins_modify fun filed _ _ _ => ?_
    have held := filed _ (Table.mem_entries_of_get? found)
    exact (congrArg NodeId.peerId (Node.node_enqueue node frame)).trans held
  · exact .refl t

/-- What an operation does to the active nodes: it takes in the one that it is asked to, which
passes the check, or none. -/
theorem perform_cases (t : NodeTable) (operation : Operation) :
    Thins t (t.perform operation) ∨
      ∃ node, operation = .add node ∧ t.add node = .ok (t.perform operation) := by
  cases operation with
  | add node =>
    cases added : t.add node with
    | ok u => exact .inr ⟨node, rfl, by rw [perform, takeIn, added]⟩
    | error _ => exact .inl (by rw [perform, takeIn, added]; exact .refl t)
  | addBootNodes nodes =>
    have noted : Thins t { t with bootNodes := t.bootNodes ++ nodes } := .of_sublist rfl (.refl _)
    exact .inl (noted.trans (thins_refill _))
  | refill => exact .inl (thins_refill t)
  | addCandidate c => exact .inl (thins_addCandidate t c)
  | touch | setChain =>
    exact .inl (thins_modify fun filed entry listed here => (filed entry listed).trans here)
  | enqueue peer frame => exact .inl (thins_enqueue t peer frame)
  | drop | dropStale | expel => exact .inl (.of_sublist rfl List.filter_sublist)
  | clear => exact .inl (.of_sublist rfl (List.nil_sublist _))
  | takeCandidate | relocate => exact .inl (.of_sublist rfl (.refl _))

/-- The active nodes keep to their bound, and each is filed once, under its own peer id. -/
structure Sound (t : NodeTable) : Prop where
  few : t.active.size ≤ t.maxActive
  once : t.active.Distinct
  filed : t.Filed

theorem Sound.thins (h : t.Sound) (thins : Thins t u) : u.Sound := by
  refine ⟨?_, h.once.sublist thins.keys, thins.filed h.filed⟩
  have fewer := thins.keys.length_le
  rw [List.length_map, List.length_map] at fewer
  rw [thins.bound]
  exact Nat.le_trans fewer h.few

theorem Sound.add (h : t.Sound) (added : t.add node = .ok u) : u.Sound := by
  obtain ⟨accepted, rfl⟩ := add_eq_ok_iff.1 added
  obtain ⟨-, -, inactive, room⟩ := check_eq_ok_iff.1 accepted
  refine ⟨?_, h.once.insert node.peer node, ?_⟩
  · have absent : t.active.get? node.peer = none := Table.contains_eq_false_iff.1 inactive
    rw [Table.size_insert_of_absent node absent]
    exact room
  · rintro entry (_ | ⟨_, old⟩)
    · rfl
    · exact h.filed entry (List.filter_sublist.subset old)

theorem Sound.undergo (h : t.Sound) (event : Event) : (t.undergo event).Sound := by
  cases event with
  | ban peer => exact h.thins (.of_sublist rfl (.refl _))
  | operation operation =>
    rcases perform_cases t operation with thins | ⟨node, -, added⟩
    · exact h.thins thins
    · exact h.add added

theorem Sound.after (h : t.Sound) (events : List Event) : (t.after events).Sound := by
  induction events generalizing t with
  | nil => exact h
  | cons event rest ih => exact ih (h.undergo event)

end BlockSync.NodeTable
