import BlockSync.Proofs.Chain.Canonical
import Mathlib.Data.Finset.Card

/-! Delivery order. Blocks of a set for which there is room end up connected exactly if
parent links inside the set join them to the genesis block, and otherwise wait or are
misnumbered, in whatever order, grouping and repetition they came. -/
namespace BlockSync.Chain

variable {genesis top block parent : Block} {c d : Chain} {hash : Hash}

/-- The blocks that parent links among those handed in join to the genesis block, with
numbers that rise by one at each link. -/
inductive Rooted (genesis : Block) (handed : Block → Prop) : Block → Prop
  | genesis : Rooted genesis handed genesis
  | child {above below : Block} (rooted : Rooted genesis handed above) (member : handed below)
      (link : below.parentHash = above.hash) (number : below.number = above.number + 1) :
      Rooted genesis handed below

/-- What steps store besides what was stored before hangs together below one block, if nothing
else that was stored before is a parent of what they store. -/
theorem rooted_of_steps {handed : Block → Prop} (ledger : Ledger genesis c) (steps : Steps c d)
    (came : ∀ hash other, d.blocks.get? hash = some other →
      c.blocks.get? hash = some other ∨ handed other)
    (below : ∀ other, handed other → ∀ above, c.blocks.get? other.parentHash = some above →
      above = top)
    (stored : d.blocks.get? hash = some block) :
    c.blocks.get? hash = some block ∨ Rooted top handed block := by
  induction steps generalizing hash block with
  | refl => exact .inl stored
  | @tail middle _ before step ih =>
    have sound := (ledger.steps before).1
    have grown := (sound.step step).2
    have earlier {hash : Hash} {other : Block} (held : middle.blocks.get? hash = some other) :
        c.blocks.get? hash = some other ∨ Rooted top handed other :=
      ih (fun hash other held => came hash other (grown.blocks_kept _ _ held)) held
    cases step with
    | pending => exact earlier stored
    | @attach _ above _ fits =>
      rcases stored_attach stored with rfl | old
      · rcases came hash block stored with old | new
        · exact .inl old
        · have link := (sound.own_hash _ _ fits.parent_stored).symm
          rcases earlier fits.parent_stored with held | rooted
          · obtain rfl := below block new above held
            exact .inr (.child .genesis new link fits.number)
          · exact .inr (.child rooted new link fits.number)
      · exact earlier old

theorem rooted_of_stored {config : ChainConfig} {handed : Block → Prop}
    (steps : Steps (.new genesis config) c)
    (origin : ∀ hash block, c.blocks.get? hash = some block → block = genesis ∨ handed block)
    (stored : c.blocks.get? hash = some block) : Rooted genesis handed block := by
  have start := ledger_new genesis config
  have only (hash : Hash) (other : Block)
      (held : (Chain.new genesis config).blocks.get? hash = some other) : other = genesis := by
    rw [blocks_new] at held
    split at held <;> cases held
    rfl
  have came (hash : Hash) (other : Block) (held : c.blocks.get? hash = some other) :
      (Chain.new genesis config).blocks.get? hash = some other ∨ handed other := by
    have own := (start.steps steps).1.own_hash _ _ held
    refine (origin _ _ held).imp_left ?_
    rintro rfl
    exact own ▸ start.genesis_stored
  rcases rooted_of_steps start steps came (fun _ _ _ held => only _ _ held) stored with old | rooted
  · exact only _ _ old ▸ .genesis
  · exact rooted

/-- A chain that was handed blocks of a set only, with room for all of them. -/
structure Within (genesis : Block) (set : Finset Block) (c : Chain) : Prop where
  ledger : Ledger genesis c
  waits : Waits [] c
  origin : Origin genesis (· ∈ set) c
  room : set.card ≤ c.config.maxPendingBlocks

variable {set : Finset Block}

theorem Within.waiting_of_full (h : Within genesis set c)
    (full : c.config.maxPendingBlocks ≤ c.pendingCount) (member : block ∈ set) :
    block ∈ c.waiting := by
  have inside : c.waiting.toFinset ⊆ set := fun other listed =>
    h.origin.waiting other (List.mem_toFinset.1 listed)
  have size : c.waiting.toFinset.card = c.pendingCount := by
    rw [List.toFinset_card_of_nodup h.waits.nodup, h.waits.counted]
  have room := h.room
  have whole : c.waiting.toFinset = set := Finset.eq_of_subset_of_card_le inside (by omega)
  exact List.mem_toFinset.1 (whole ▸ member)

/-- Each block of the set has a hash of its own. -/
structure Separate (genesis : Block) (set : Finset Block) : Prop where
  inside : ∀ left ∈ set, ∀ right ∈ set, left.hash = right.hash → left = right
  from_genesis : ∀ block ∈ set, block.hash ≠ genesis.hash

theorem Within.offer (h : Within genesis set c) (separate : Separate genesis set)
    (member : block ∈ set) :
    Within genesis set (c.offer block).2 ∧
      (∀ other, c.Settled other → (c.offer block).2.Settled other) ∧
      (c.offer block).2.Settled block := by
  have steps := steps_offer c block
  have offered := h.waits.offer h.ledger block
  have origin := offered.origin _ h.origin member
  refine ⟨⟨(h.ledger.steps steps).1, offered.waits, origin, by rw [steps.config_eq]; exact h.room⟩,
    offered.settled, ?_⟩
  rcases offered.taken with (placed | ⟨twin, waits, same⟩) | ⟨full, unchanged⟩
  · exact .inl placed
  · have equal := separate.inside twin (origin.waiting twin waits) block member same
    subst equal
    exact .inr waits
  · rw [unchanged]
    exact .inr (h.waiting_of_full full member)

theorem Within.offerAll (h : Within genesis set c) (separate : Separate genesis set)
    {blocks : List Block} (members : ∀ block ∈ blocks, block ∈ set) :
    Within genesis set (c.offerAll blocks) ∧
      (∀ other, c.Settled other → (c.offerAll blocks).Settled other) ∧
      ∀ block ∈ blocks, (c.offerAll blocks).Settled block := by
  induction blocks generalizing c with
  | nil => exact ⟨h, fun _ settled => settled, by simp⟩
  | cons first rest ih =>
    obtain ⟨next, kept, settled⟩ := h.offer separate (members first List.mem_cons_self)
    obtain ⟨last, later, others⟩ := ih next fun block member =>
      members block (List.mem_cons_of_mem _ member)
    refine ⟨last, fun other before => later other (kept other before), ?_⟩
    rintro block (_ | ⟨_, member⟩)
    · exact later _ settled
    · exact others block member

theorem Within.deliver (h : Within genesis set c) (separate : Separate genesis set)
    {delivery : Delivery} (members : ∀ block ∈ delivery.blocks, block ∈ set) :
    Within genesis set (c.deliver delivery) ∧
      (∀ other, c.Settled other → (c.deliver delivery).Settled other) ∧
      ∀ block ∈ delivery.blocks, (c.deliver delivery).Settled block := by
  cases delivery with
  | block first =>
    obtain ⟨next, kept, settled⟩ := h.offer separate (members first List.mem_cons_self)
    refine ⟨next, kept, ?_⟩
    intro block listed
    rw [List.mem_singleton.1 listed]
    exact settled
  | range blocks =>
    obtain ⟨front, back, split, result, -, stop⟩ := h.waits.storeRange_eq_offerAll h.ledger blocks
    have config := (steps_storeRange c blocks).config_eq
    change Within genesis set (c.storeRange blocks).2 ∧
      (∀ other, c.Settled other → (c.storeRange blocks).2.Settled other) ∧
      ∀ block ∈ blocks, (c.storeRange blocks).2.Settled block
    rw [← config] at stop
    rw [result] at stop ⊢
    have inside : ∀ block ∈ front, block ∈ set := by
      intro block member
      exact members block (split ▸ List.mem_append_left _ member)
    obtain ⟨next, kept, settled⟩ := h.offerAll separate inside
    refine ⟨next, kept, ?_⟩
    intro block member
    -- a range that ends early leaves storage full, and then it holds the whole set
    rcases stop with rfl | full
    · rw [List.append_nil] at split
      exact settled block (split ▸ member)
    · exact .inr (next.waiting_of_full full (members block member))

/-- The blocks of a set come at least once each, and nothing else comes. -/
def Delivers (deliveries : List Delivery) (set : Finset Block) : Prop :=
  ∀ block, block ∈ set ↔ ∃ delivery ∈ deliveries, block ∈ delivery.blocks

theorem Within.foldl_deliver (h : Within genesis set c) (separate : Separate genesis set)
    {deliveries : List Delivery}
    (members : ∀ delivery ∈ deliveries, ∀ block ∈ delivery.blocks, block ∈ set) :
    Within genesis set (deliveries.foldl Chain.deliver c) ∧
      (∀ other, c.Settled other → (deliveries.foldl Chain.deliver c).Settled other) ∧
      ∀ delivery ∈ deliveries, ∀ block ∈ delivery.blocks,
        (deliveries.foldl Chain.deliver c).Settled block := by
  induction deliveries generalizing c with
  | nil => exact ⟨h, fun _ settled => settled, by simp⟩
  | cons first rest ih =>
    obtain ⟨next, kept, settled⟩ := h.deliver separate (members first List.mem_cons_self)
    obtain ⟨last, later, others⟩ := ih next fun delivery member =>
      members delivery (List.mem_cons_of_mem _ member)
    refine ⟨last, fun other before => later other (kept other before), ?_⟩
    rintro delivery (_ | ⟨_, member⟩) block inside
    · exact later _ (settled block inside)
    · exact others delivery member block inside

theorem Within.eq_of_stored (h : Within genesis set c) (separate : Separate genesis set)
    (member : block ∈ set) {other : Block} (held : c.blocks.get? block.hash = some other) :
    other = block := by
  have own := h.ledger.own_hash _ _ held
  rcases h.origin.stored _ _ held with rfl | inside
  · exact absurd own.symm (separate.from_genesis block member)
  · exact separate.inside other inside block member own

theorem within_new {config : ChainConfig} (room : set.card ≤ config.maxPendingBlocks) :
    Within genesis set (.new genesis config) :=
  ⟨ledger_new genesis config, waits_new genesis config, origin_new genesis config _, room⟩

/-- What a chain ends up with after all blocks of a set came. -/
structure Complete (genesis : Block) (set : Finset Block) (c : Chain) : Prop where
  stored_iff : ∀ hash block, c.blockByHash? hash = some block ↔
    block.hash = hash ∧ Rooted genesis (· ∈ set) block
  waiting_iff : ∀ block, block ∈ c.waiting ↔
    block ∈ set ∧ c.blockByHash? block.parentHash = none

theorem complete_of_history {config : ChainConfig} {deliveries : List Delivery}
    (separate : Separate genesis set) (room : set.card ≤ config.maxPendingBlocks)
    (delivers : Delivers deliveries set) :
    Within genesis set (history genesis config deliveries) ∧
      Complete genesis set (history genesis config deliveries) := by
  have fresh : Within genesis set (.new genesis config) := within_new room
  have members : ∀ delivery ∈ deliveries, ∀ block ∈ delivery.blocks, block ∈ set := by
    intro delivery listed block member
    exact (delivers block).2 ⟨delivery, listed, member⟩
  obtain ⟨within, -, settled⟩ := fresh.foldl_deliver separate members
  change Within genesis set (history genesis config deliveries) at within
  have every (block : Block) (member : block ∈ set) :
      (history genesis config deliveries).Settled block := by
    obtain ⟨delivery, listed, inside⟩ := (delivers block).1 member
    exact settled delivery listed block inside
  generalize reached : history genesis config deliveries = c at within every
  have steps : Steps (.new genesis config) c := reached ▸ steps_history genesis config deliveries
  have stored (block : Block) (rooted : Rooted genesis (· ∈ set) block) :
      c.blocks.get? block.hash = some block := by
    induction rooted with
    | genesis => exact within.ledger.genesis_stored
    | @child above below _ member link number ih =>
      -- the parent is stored, so the child neither waits nor is it ruled out by its number
      rw [← link] at ih
      rcases every below member with (⟨other, held⟩ | ⟨parent, held, wrong⟩) | waits
      · rw [held, within.eq_of_stored separate member held]
      · rw [ih] at held
        cases held
        exact absurd number wrong
      · rw [(within.waits.orphaned below waits).resolve_right List.not_mem_nil] at ih
        cases ih
  refine ⟨within, ⟨fun hash block => ⟨?_, ?_⟩, fun block => ⟨?_, ?_⟩⟩⟩
  · intro held
    exact ⟨within.ledger.own_hash _ _ held, rooted_of_stored steps within.origin.stored held⟩
  · rintro ⟨rfl, rooted⟩
    exact stored block rooted
  · intro waits
    exact ⟨within.origin.waiting block waits,
      (within.waits.orphaned block waits).resolve_right List.not_mem_nil⟩
  · rintro ⟨member, orphan⟩
    change c.blocks.get? block.parentHash = none at orphan
    rcases every block member with (⟨other, held⟩ | ⟨above, held, -⟩) | waits
    · rw [within.eq_of_stored separate member held] at held
      obtain ⟨parent, total, above, -⟩ :=
        within.ledger.extends_parent _ block held (separate.from_genesis block member)
      rw [above] at orphan
      cases orphan
    · rw [held] at orphan
      cases orphan
    · exact waits

/-- Any two deliveries of one set end alike: with the same connected blocks, the same
totals, the same waiting blocks and the same best total. -/
theorem delivery_order_irrelevant {config : ChainConfig} {first second : List Delivery}
    (separate : Separate genesis set) (room : set.card ≤ config.maxPendingBlocks)
    (one : Delivers first set) (two : Delivers second set) :
    let c := history genesis config first
    let d := history genesis config second
    (∀ hash, c.blockByHash? hash = d.blockByHash? hash) ∧ (∀ hash, c.total? hash = d.total? hash) ∧
      c.waiting.Perm d.waiting ∧ c.total = d.total ∧
      Complete genesis set c ∧ Complete genesis set d := by
  obtain ⟨within, complete⟩ := complete_of_history separate room one
  obtain ⟨within', complete'⟩ := complete_of_history separate room two
  have steps := steps_history genesis config first
  dsimp only
  generalize history genesis config first = c at within complete steps ⊢
  generalize history genesis config second = d at within' complete' ⊢
  have blocks (hash : Hash) : c.blockByHash? hash = d.blockByHash? hash :=
    Option.ext fun block =>
      (complete.stored_iff hash block).trans (complete'.stored_iff hash block).symm
  have totals (hash : Hash) : c.total? hash = d.total? hash := by
    cases stored : c.blocks.get? hash with
    | none =>
      rw [total?, within.ledger.total_eq_none_iff.2 stored]
      exact (within'.ledger.total_eq_none_iff.2 ((blocks hash).symm.trans stored)).symm
    | some block =>
      apply totals_agree steps within'.ledger _ stored ((blocks hash).symm.trans stored)
      intro hash left right here there
      rw [Option.some.inj (here.symm.trans ((blocks hash).trans there))]
  refine ⟨blocks, totals, ?_, ?_, complete, complete'⟩
  · apply (List.perm_ext_iff_of_nodup within.waits.nodup within'.waits.nodup).2
    intro block
    rw [complete.waiting_iff, complete'.waiting_iff, blocks]
  · exact BitVec.le_antisymm
      (within'.ledger.best_heaviest _ _ ((totals c.best).symm.trans within.ledger.best_total))
      (within.ledger.best_heaviest _ _ ((totals d.best).trans within'.ledger.best_total))

/-- A fork that comes child first, and one that comes as a range with a block repeated. -/
theorem fork_order_irrelevant :
    let c := history Fork.start {} [.range [Fork.second], .block Fork.first, .block Fork.heavy]
    let d := history Fork.start {} [.block Fork.heavy, .range [Fork.first, Fork.second, Fork.first]]
    (∀ hash, c.blockByHash? hash = d.blockByHash? hash) ∧ c.waiting.Perm d.waiting ∧
      c.total = d.total := by
  have apart := (List.nodup_append.1 Fork.hashes_differ).1
  have separate : Separate Fork.start [Fork.second, Fork.first, Fork.heavy].toFinset :=
    ⟨fun left here right there same =>
      List.inj_on_of_nodup_map apart (List.mem_cons_of_mem _ (List.mem_toFinset.1 here))
        (List.mem_cons_of_mem _ (List.mem_toFinset.1 there)) same,
    fun block member same => (List.nodup_cons.1 apart).1
      (same ▸ List.mem_map_of_mem (List.mem_toFinset.1 member))⟩
  have one : Delivers [.range [Fork.second], .block Fork.first, .block Fork.heavy]
      [Fork.second, Fork.first, Fork.heavy].toFinset := by
    intro block
    rw [List.mem_toFinset, ← List.mem_flatMap]
    rfl
  have two : Delivers [.block Fork.heavy, .range [Fork.first, Fork.second, Fork.first]]
      [Fork.second, Fork.first, Fork.heavy].toFinset := by
    intro block
    rw [List.mem_toFinset, ← List.mem_flatMap]
    change block ∈ [Fork.second, Fork.first, Fork.heavy] ↔
      block ∈ [Fork.heavy, Fork.first, Fork.second, Fork.first]
    clear separate apart one
    generalize Fork.first = first, Fork.second = second, Fork.heavy = heavy
    simp only [List.mem_cons, List.not_mem_nil, or_false]
    tauto
  have room : [Fork.second, Fork.first, Fork.heavy].toFinset.card ≤
      ({} : ChainConfig).maxPendingBlocks := (List.toFinset_card_le _).trans (by decide)
  obtain ⟨blocks, -, waiting, total, -⟩ := delivery_order_irrelevant separate room one two
  exact ⟨blocks, waiting, total⟩

end BlockSync.Chain
