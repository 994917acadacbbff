import BlockSync.Proofs.Chain.Canonical

/-! Orphans. Pending storage holds each waiting block once, below its own parent hash, and
only blocks that are not connected and whose parent is not connected. A block whose parent
is connected is connected too, unless its number rules it out or storage was full when it
came. -/
namespace BlockSync.Chain

variable {genesis block parent : Block} {c d : Chain} {blocks front : List Block}

/-- Among the genesis block and some others a hash means one header. -/
def Unambiguous (genesis : Block) (blocks : List Block) : Prop :=
  ∀ left ∈ genesis :: blocks, ∀ right ∈ genesis :: blocks,
    left.hash = right.hash → left.header = right.header

/-- A chain that was handed some blocks and nothing else. -/
structure Fed (genesis : Block) (blocks : List Block) (c : Chain) : Prop where
  ledger : Ledger genesis c
  waits : Waits [] c
  origin : Origin genesis (fun block => block ∈ blocks ∧ block.hash ≠ genesis.hash) c

theorem fed_new (genesis : Block) (config : ChainConfig) (blocks : List Block) :
    Fed genesis blocks (.new genesis config) :=
  ⟨ledger_new genesis config, waits_new genesis config, origin_new genesis config _⟩

theorem Fed.intact (h : Fed genesis blocks c) (intact : Intact genesis c front d)
    (steps : Steps c d) (inside : front ⊆ blocks) : Fed genesis blocks d := by
  refine ⟨(h.ledger.steps steps).1, intact.waits, intact.origin _ h.origin ?_⟩
  intro block member apart
  exact ⟨inside member, apart⟩

theorem Fed.foldl_deliver (h : Fed genesis blocks c) {deliveries : List Delivery}
    (inside : deliveries.flatMap Delivery.blocks ⊆ blocks) :
    Fed genesis blocks (deliveries.foldl Chain.deliver c) :=
  h.intact (h.waits.foldl_deliver h.ledger deliveries) (steps_foldl_deliver deliveries c) inside

theorem Fed.known_of_stored (h : Fed genesis blocks c) {hash : Hash}
    (stored : c.blocks.get? hash = some block) : block ∈ genesis :: blocks := by
  rcases h.origin.stored hash block stored with rfl | ⟨member, -⟩
  · exact List.mem_cons_self
  · exact List.mem_cons_of_mem _ member

theorem Fed.known_of_waiting (h : Fed genesis blocks c) (waits : block ∈ c.waiting) :
    block ∈ genesis :: blocks :=
  List.mem_cons_of_mem _ (h.origin.waiting block waits).1

theorem Fed.nodup_hashes (h : Fed genesis blocks c) (unambiguous : Unambiguous genesis blocks) :
    (c.waiting.map Block.hash).Nodup := by
  refine h.waits.nodup.map_on ?_
  intro left first right second same
  have header : left.header = right.header :=
    unambiguous left (h.known_of_waiting first) right (h.known_of_waiting second) same
  have link : left.parentHash = right.parentHash := congrArg Header.parentHash header
  -- one parent hash means one list, and within a list there are no twins
  obtain ⟨held, found, inside⟩ := h.waits.mem_waiting_iff.1 first
  obtain ⟨more, found', inside'⟩ := h.waits.mem_waiting_iff.1 second
  rw [← link, found] at found'
  cases found'
  exact List.inj_on_of_nodup_map (h.waits.no_twins _ _ found) inside inside' same

theorem Fed.orphan (h : Fed genesis blocks c) (waits : block ∈ c.waiting) :
    c.blocks.get? block.parentHash = none := by
  simpa using h.waits.orphaned block waits

theorem Fed.unconnected (h : Fed genesis blocks c) (unambiguous : Unambiguous genesis blocks)
    (waits : block ∈ c.waiting) : c.blocks.get? block.hash = none := by
  cases stored : c.blocks.get? block.hash with
  | none => rfl
  | some other =>
    have own := h.ledger.own_hash _ _ stored
    have header : other.header = block.header :=
      unambiguous other (h.known_of_stored stored) block (h.known_of_waiting waits) own
    have apart := (h.origin.waiting block waits).2
    obtain ⟨parent, total, above, -⟩ := h.ledger.extends_parent _ other stored apart
    have link : other.parentHash = block.parentHash := congrArg Header.parentHash header
    rw [link, h.orphan waits] at above
    cases above

/-- Some block with this header is accounted for. -/
def Handled (c : Chain) (block : Block) : Prop :=
  ∃ twin : Block, twin.header = block.header ∧ c.Settled twin

theorem Intact.handled (h : Intact genesis c front d) (handled : c.Handled block) :
    d.Handled block := by
  obtain ⟨twin, same, settled⟩ := handled
  exact ⟨twin, same, h.settled twin settled⟩

theorem Fed.handled_of_taken (h : Fed genesis blocks c) (unambiguous : Unambiguous genesis blocks)
    (member : block ∈ blocks) (taken : c.Taken block) : c.Handled block := by
  rcases taken with placed | ⟨twin, waits, same⟩
  · exact ⟨block, rfl, .inl placed⟩
  · refine ⟨twin, ?_, .inr waits⟩
    exact unambiguous twin (h.known_of_waiting waits) block (List.mem_cons_of_mem _ member) same

theorem Placed.of_header_eq {twin : Block} (same : twin.header = block.header)
    (placed : c.Placed twin) : c.Placed block := by
  rcases placed with ⟨other, stored⟩ | ⟨parent, stored, wrong⟩
  · left
    simp only [Block.hash, same] at stored
    exact ⟨other, stored⟩
  · right
    simp only [Block.parentHash, Block.number, same] at stored wrong
    exact ⟨parent, stored, wrong⟩

theorem Fed.placed_of_handled (h : Fed genesis blocks c) (handled : c.Handled block)
    (stored : c.blocks.get? block.parentHash = some parent) : c.Placed block := by
  obtain ⟨twin, same, placed | waits⟩ := handled
  · exact placed.of_header_eq same
  · have link : twin.parentHash = block.parentHash := congrArg Header.parentHash same
    have orphan := h.orphan waits
    rw [link, stored] at orphan
    cases orphan

theorem Fed.handled_offerAll (h : Fed genesis blocks c) (unambiguous : Unambiguous genesis blocks)
    (inside : front ⊆ blocks) (admits : c.Admits front) :
    ∀ block ∈ front, (c.offerAll front).Handled block := by
  induction front generalizing c with
  | nil => simp
  | cons first rest ih =>
    obtain ⟨taken, admitted⟩ := admits
    obtain ⟨member, others⟩ := List.cons_subset.1 inside
    have offered := h.waits.intact_offer h.ledger first
    have next : Fed genesis blocks (c.offer first).2 :=
      h.intact offered (steps_offer c first) (by simpa using member)
    have later := next.waits.offerAll next.ledger rest
    rintro block (_ | ⟨_, listed⟩)
    · exact later.handled (next.handled_of_taken unambiguous member taken)
    · exact ih next others admitted block listed

/-- A delivery takes its blocks in, unless it leaves storage full. -/
theorem Fed.handled_deliver (h : Fed genesis blocks c) (unambiguous : Unambiguous genesis blocks)
    {delivery : Delivery} (inside : delivery.blocks ⊆ blocks) :
    ∀ block ∈ delivery.blocks, (c.deliver delivery).Handled block ∨
      c.config.maxPendingBlocks ≤ (c.deliver delivery).pendingCount := by
  cases delivery with
  | block first =>
    intro block listed
    obtain rfl := List.mem_singleton.1 listed
    have offered := h.waits.offer h.ledger block
    have next : Fed genesis blocks (c.offer block).2 :=
      h.intact (h.waits.intact_offer h.ledger block) (steps_offer c block) inside
    rcases offered.taken with taken | ⟨full, same⟩
    · exact .inl (next.handled_of_taken unambiguous (inside listed) taken)
    · right
      change _ ≤ (c.offer block).2.pendingCount
      rw [same]
      exact full
  | range all =>
    intro block listed
    change (c.storeRange all).2.Handled block ∨ _ ≤ (c.storeRange all).2.pendingCount
    obtain ⟨front, back, split, result, admits, rfl | full⟩ :=
      h.waits.storeRange_eq_offerAll h.ledger all
    · rw [List.append_nil] at split
      subst split
      rw [result]
      exact .inl (h.handled_offerAll unambiguous inside admits block listed)
    · exact .inr full

/-- Pending storage counts what it holds and stays within its limit. It holds blocks below
their own parent hash, no two with one hash, none connected and none with a connected
parent. A delivered block with a connected parent is connected or misnumbered, unless
storage was full when its delivery ended. -/
theorem pending_of_history {config : ChainConfig} {deliveries : List Delivery}
    (unambiguous : Unambiguous genesis (deliveries.flatMap Delivery.blocks)) :
    let c := history genesis config deliveries
    c.pendingCount = c.waiting.length ∧ c.pendingCount ≤ config.maxPendingBlocks ∧
    (∀ entry ∈ c.pending.entries, ∀ block ∈ entry.2, block.parentHash = entry.1) ∧
    (c.waiting.map Block.hash).Nodup ∧
    (∀ block ∈ c.waiting,
      c.blockByHash? block.hash = none ∧ c.blockByHash? block.parentHash = none) ∧
    ∀ before delivery after, deliveries = before ++ delivery :: after →
      ∀ block ∈ delivery.blocks, ∀ parent, c.blockByHash? block.parentHash = some parent →
        (∃ other, c.blockByHash? block.hash = some other ∧ other.header = block.header) ∨
        block.number ≠ parent.number + 1 ∨
        config.maxPendingBlocks ≤ (history genesis config (before ++ [delivery])).pendingCount := by
  intro c
  have fed : Fed genesis (deliveries.flatMap Delivery.blocks) c :=
    (fed_new genesis config _).foldl_deliver (List.Subset.refl _)
  have settings : c.config = config := (steps_history genesis config deliveries).config_eq
  refine ⟨fed.waits.counted, settings ▸ fed.waits.bounded, ?_, fed.nodup_hashes unambiguous, ?_, ?_⟩
  · rintro ⟨parent, held⟩ listed
    exact fed.waits.filed parent held (fed.waits.distinct.get?_of_mem listed)
  · intro block waits
    exact ⟨fed.unconnected unambiguous waits, fed.orphan waits⟩
  · intro before delivery after split block member parent stored
    have inside : before.flatMap Delivery.blocks ++ delivery.blocks ++
        after.flatMap Delivery.blocks = deliveries.flatMap Delivery.blocks := by
      simp [split]
    have known : block ∈ deliveries.flatMap Delivery.blocks := by
      simp [← inside, member]
    have earlier : Fed genesis (deliveries.flatMap Delivery.blocks) (history genesis config before) :=
      (fed_new genesis config _).foldl_deliver (by simp [← inside])
    have reached := history_concat genesis config before delivery
    have last : c = after.foldl deliver (history genesis config (before ++ [delivery])) := by
      simp [c, split, history]
    rw [reached] at last ⊢
    rcases earlier.handled_deliver unambiguous (by simp [← inside]) block member with handled | full
    · have intact := earlier.waits.deliver earlier.ledger delivery
      have rest := intact.waits.foldl_deliver (earlier.ledger.deliver delivery).1 after
      rw [← last] at rest
      rcases fed.placed_of_handled (rest.handled handled) stored with ⟨other, found⟩ | wrong
      · refine .inl ⟨other, found, ?_⟩
        exact unambiguous other (fed.known_of_stored found) block (List.mem_cons_of_mem _ known)
          (fed.ledger.own_hash _ _ found)
      · obtain ⟨above, held, apart⟩ := wrong
        rw [blockByHash?, held] at stored
        cases stored
        exact .inr (.inl apart)
    · right; right
      rwa [(steps_history genesis config before).config_eq] at full

theorem Fork.unambiguous {blocks : List Block} (inside : start :: blocks ⊆ [start, second, first, heavy]) :
    Unambiguous start blocks :=
  fun _ here _ there same => congrArg Block.header (eq_of_hash (inside here) (inside there) same)

/-- Of a fork came one side without its first block, and the other side. -/
theorem pending_of_fork :
    let c := history Fork.start {} [.range [Fork.second], .block Fork.heavy]
    c.pendingCount = c.waiting.length ∧ (c.waiting.map Block.hash).Nodup ∧
      ∀ block ∈ c.waiting, c.blockByHash? block.parentHash = none := by
  have unambiguous : Unambiguous Fork.start
      (([.range [Fork.second], .block Fork.heavy] : List Delivery).flatMap Delivery.blocks) :=
    Fork.unambiguous (show [Fork.start, Fork.second, Fork.heavy] ⊆ _ by simp)
  obtain ⟨counted, -, -, once, apart, -⟩ := pending_of_history unambiguous
  exact ⟨counted, once, fun block waits => (apart block waits).2⟩

end BlockSync.Chain
