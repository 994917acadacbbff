import BlockSync.Proofs.Chain.DeliveryOrder
import BlockSync.Proofs.Chain.Orphans

/-! What an offer says and does. What is stored decides on a block: it is known, its number
rules it out, it is connected below its parent, or it waits as long as there is room. With a
block everything is connected that waits below it, down each line of parent links as far as
the numbers rise by one; what waits on is what still has no stored parent. -/
namespace BlockSync.Chain

variable {genesis top block parent : Block} {c d : Chain} {hash : Hash} {total : Difficulty}

/-- Waiting blocks have hashes of their own, and those of no stored blocks. -/
structure Untwinned (c : Chain) : Prop where
  nodup : (c.waiting.map Block.hash).Nodup
  unconnected : ∀ block ∈ c.waiting, c.blocks.get? block.hash = none

theorem Untwinned.ne_genesis (h : c.Untwinned) (ledger : Ledger genesis c)
    (waiting : block ∈ c.waiting) : block.hash ≠ genesis.hash := by
  intro same
  have absent := h.unconnected block waiting
  rw [same, ledger.genesis_stored] at absent
  cases absent

/-- A drain puts nothing into pending storage. -/
theorem pending_of_drain (c : Chain) (stack : List Hash) {key : Hash} {blocks : List Block}
    (found : (c.drain stack).2.pending.get? key = some blocks) :
    c.pending.get? key = some blocks := by
  revert found
  apply drain_induction (motive := fun c _ d =>
    d.pending.get? key = some blocks → c.pending.get? key = some blocks)
  · exact fun _ found => found
  · exact fun _ _ _ _ _ rest => rest
  · intro c hash stack children d _ rest found
    have left := rest found
    rw [turn, pending_foldl_connectChild, release, Table.get?_erase] at left
    split at left
    · cases left
    · exact left

/-- While it is drained below one stored block, no other stored block is a parent of a waiting
one. -/
theorem Waits.top_of_stored (h : Waits [top.hash] c) (stored : c.blocks.get? top.hash = some top)
    (waiting : block ∈ c.waiting) (held : c.blocks.get? block.parentHash = some parent) :
    parent = top := by
  rcases h.orphaned block waiting with orphan | listed
  · rw [orphan] at held
    cases held
  · rw [List.mem_singleton.1 listed, stored] at held
    exact (Option.some.inj held).symm

/-- Whatever leads from a stored block with blocks waiting below it to a chain below whose blocks
nothing waits, if it settles those and stores only them, it connects what hangs below the block
and leaves waiting what has no stored parent afterwards. -/
theorem Waits.closure (h : Waits [top.hash] c) (ledger : Ledger genesis c)
    (stored : c.blocks.get? top.hash = some top) (single : c.Untwinned) (steps : Steps c d)
    (waits : Waits [] d) (settled : ∀ other ∈ c.waiting, d.Settled other)
    (came : ∀ hash other, d.blocks.get? hash = some other →
      c.blocks.get? hash = some other ∨ other ∈ c.waiting)
    (left : d.waiting ⊆ c.waiting) :
    (∀ hash other, d.blocks.get? hash = some other ↔
      c.blocks.get? hash = some other ∨ other.hash = hash ∧ Rooted top (· ∈ c.waiting) other) ∧
    ∀ other, other ∈ d.waiting ↔ other ∈ c.waiting ∧ d.blocks.get? other.parentHash = none := by
  obtain ⟨sound, grown⟩ := ledger.steps steps
  have rooted {hash : Hash} {other : Block} (held : d.blocks.get? hash = some other) :
      c.blocks.get? hash = some other ∨ Rooted top (· ∈ c.waiting) other :=
    rooted_of_steps ledger steps came (fun _ waiting _ => h.top_of_stored stored waiting) held
  -- a waiting block has no double, so where its hash is stored it is stored itself
  have same {other twin : Block} (waiting : other ∈ c.waiting)
      (held : d.blocks.get? other.hash = some twin) : twin = other := by
    rcases came _ _ held with old | new
    · rw [single.unconnected other waiting] at old
      cases old
    · exact List.inj_on_of_nodup_map single.nodup new waiting (sound.own_hash _ _ held)
  have connected (other : Block) (rooted : Rooted top (· ∈ c.waiting) other) :
      d.blocks.get? other.hash = some other := by
    induction rooted with
    | genesis => exact grown.blocks_kept _ _ stored
    | @child above other _ waiting link number ih =>
      rw [← link] at ih
      rcases settled other waiting with (⟨twin, held⟩ | ⟨parent, held, wrong⟩) | left
      · exact held.trans (congrArg some (same waiting held))
      · rw [ih, Option.some.injEq] at held
        exact absurd (held ▸ number) wrong
      · rw [(waits.orphaned other left).resolve_right List.not_mem_nil] at ih
        cases ih
  refine ⟨fun hash other => ⟨?_, ?_⟩, fun other => ⟨?_, ?_⟩⟩
  · intro held
    rcases rooted held with old | new
    · exact .inl old
    · exact .inr ⟨sound.own_hash _ _ held, new⟩
  · rintro (old | ⟨rfl, new⟩)
    · exact grown.blocks_kept _ _ old
    · exact connected other new
  · intro waiting
    exact ⟨left waiting, (waits.orphaned other waiting).resolve_right List.not_mem_nil⟩
  · rintro ⟨waiting, orphan⟩
    rcases settled other waiting with (⟨twin, held⟩ | ⟨parent, held, -⟩) | left
    · obtain rfl := same waiting held
      obtain ⟨parent, -, above, -⟩ :=
        sound.extends_parent _ twin held (single.ne_genesis ledger waiting)
      rw [orphan] at above
      cases above
    · rw [orphan] at held
      cases held
    · exact left

/-- Draining below one stored block connects what hangs below it, and leaves waiting what has
no stored parent afterwards. -/
theorem Waits.drain_spec (h : Waits [top.hash] c) (ledger : Ledger genesis c)
    (stored : c.blocks.get? top.hash = some top) (single : c.Untwinned) :
    let d := (c.drain [top.hash]).2
    (∀ hash other, d.blocks.get? hash = some other ↔
      c.blocks.get? hash = some other ∨ other.hash = hash ∧ Rooted top (· ∈ c.waiting) other) ∧
    ∀ other, other ∈ d.waiting ↔ other ∈ c.waiting ∧ d.blocks.get? other.parentHash = none := by
  intro d
  have steps : Steps c d := steps_drain c [top.hash]
  obtain ⟨waits, settled, origin⟩ := h.drain ledger fun hash listed =>
    ⟨top, List.mem_singleton.1 listed ▸ stored⟩
  change Waits [] d at waits
  refine h.closure ledger stored single steps waits
    (fun other waiting => settled other (.inr waiting)) ?_ ?_
  · intro hash other held
    have own := (ledger.steps steps).1.own_hash _ _ held
    have before : Origin genesis
        (fun other => c.blocks.get? other.hash = some other ∨ other ∈ c.waiting) c :=
      ⟨fun hash other old => .inr (.inl (by rw [ledger.own_hash _ _ old, old])), fun _ => .inr⟩
    rcases (origin _ before).stored hash other held with rfl | old | new
    · exact .inl (own ▸ ledger.genesis_stored)
    · exact .inl (own ▸ old)
    · exact .inr new
  · intro other left
    obtain ⟨blocks, found, member⟩ := waits.mem_waiting_iff.1 left
    exact h.mem_waiting_iff.2 ⟨blocks, pending_of_drain c _ found, member⟩

/-- What an offer says of a block, by what is stored. Numbers are added in a machine word and
difficulties modulo `2 ^ 256`. -/
structure Verdict (c : Chain) (block : Block) (result : ImportResult) : Prop where
  known : result = .alreadyKnown ↔ ∃ other, c.blockByHash? block.hash = some other
  parented : c.blockByHash? block.hash = none → ∀ parent,
    c.blockByHash? block.parentHash = some parent →
    ∃ total, c.total? block.parentHash = some total ∧
      result =
        if block.number ≠ parent.number + 1 then .invalid
        else if c.total < total + block.header.difficulty then .importedBest
        else .importedNotBest
  orphaned : c.blockByHash? block.hash = none → c.blockByHash? block.parentHash = none →
    result = if c.pendingCount < c.config.maxPendingBlocks then .storedForLater else .noParent

/-- What an offer makes of a chain, by what it says of the block. -/
structure Outcome (c : Chain) (block : Block) (result : ImportResult) (d : Chain) : Prop where
  unchanged : result = .alreadyKnown ∨ result = .invalid ∨ result = .noParent → d = c
  kept : result = .storedForLater →
    d = { c with pending := d.pending, pendingCount := d.pendingCount } ∧
      ((∃ twin ∈ c.waiting, twin.hash = block.hash) → d = c) ∧
      ((∀ twin ∈ c.waiting, twin.hash ≠ block.hash) → d.waiting.Perm (block :: c.waiting))
  connected : result.isImported = true →
    (∀ hash other, d.blockByHash? hash = some other ↔
      c.blockByHash? hash = some other ∨ other.hash = hash ∧ Rooted block (· ∈ c.waiting) other) ∧
    ∀ other, other ∈ d.waiting ↔ other ∈ c.waiting ∧ d.blockByHash? other.parentHash = none

theorem Ledger.verdict (h : Ledger genesis c) (block : Block) :
    Verdict c block (c.offer block).1 where
  known := by
    constructor
    · intro said
      obtain ⟨known, -⟩ | ⟨-, result, kept, offered⟩ | ⟨-, refused⟩ |
        ⟨result, parent, total, -, imported, connected⟩ := h.offer_cases block
      · exact known
      · rw [offered] at said
        rcases kept with rfl | rfl <;> cases said
      · rw [refused] at said
        cases said
      · rw [connected] at said
        change result = _ at said
        rw [said] at imported
        cases imported
    · rintro ⟨other, stored⟩
      rw [offer_of_stored stored]
  parented fresh parent stored := by
    obtain ⟨total, recorded⟩ := h.total_of_stored stored
    refine ⟨total, recorded, ?_⟩
    by_cases number : block.number = parent.number + 1
    · rw [h.offer_of_fits ⟨fresh, stored, recorded, number⟩, if_neg (Decidable.not_not.2 number)]
    · rw [h.offer_of_misnumbered fresh stored number, if_pos number]
  orphaned fresh orphan := by
    rw [h.offer_of_orphan fresh orphan]

theorem untwinned_attach {blocks : List Block} (fed : Fed genesis blocks c)
    (unambiguous : Unambiguous genesis (block :: blocks)) (fits : c.Fits block parent total)
    (weight : Difficulty) : (c.attach block weight).Untwinned := by
  have more : genesis :: blocks ⊆ genesis :: block :: blocks :=
    List.cons_subset_cons _ (List.subset_cons_self _ _)
  have fewer : Unambiguous genesis blocks := fun left first right second =>
    unambiguous left (more first) right (more second)
  have waits : (c.attach block weight).waiting = c.waiting := by
    rw [waiting, pending_attach]
    rfl
  refine ⟨?_, ?_⟩
  · rw [waits]
    exact fed.nodup_hashes fewer
  · intro other member
    rw [waits] at member
    rw [blocks_attach, Table.get?_insert]
    split
    · rename_i same
      have header : block.header = other.header :=
        unambiguous block (by simp) other (more (fed.known_of_waiting member)) same
      have link : block.parentHash = other.parentHash := congrArg Header.parentHash header
      have orphan := fed.orphan member
      rw [← link, fits.parent_stored] at orphan
      cases orphan
    · exact fed.unconnected fewer member

/-- A block that waits is added to those that wait already, unless it is one of them. -/
theorem Fed.outcome_of_orphan {blocks : List Block} (h : Fed genesis blocks c)
    (unambiguous : Unambiguous genesis (block :: blocks))
    (fresh : c.blocks.get? block.hash = none) (orphan : c.blocks.get? block.parentHash = none) :
    Outcome c block (c.offer block).1 (c.offer block).2 := by
  rw [h.ledger.offer_of_orphan fresh orphan]
  obtain ⟨full, kept⟩ | ⟨room, kept, twin, member, same⟩ | ⟨room, kept, single⟩ :=
    storePending_cases c block
  · rw [kept, if_neg (Nat.not_lt.2 full)]
    exact ⟨fun _ => rfl, nofun, nofun⟩
  · rw [kept, if_pos room]
    refine ⟨nofun, fun _ => ⟨rfl, fun _ => rfl, fun apart => ?_⟩, nofun⟩
    exact absurd same (apart twin (h.waits.siblings _ twin member).2)
  · rw [kept, if_pos room]
    refine ⟨nofun, fun _ => ⟨rfl, ?_, fun _ => h.waits.waiting_keep block⟩, nofun⟩
    -- a waiting block with the same hash would be a sibling, since it has the same parent hash
    rintro ⟨twin, member, same⟩
    have known : twin ∈ genesis :: block :: blocks :=
      List.cons_subset_cons _ (List.subset_cons_self _ _) (h.known_of_waiting member)
    have header : twin.header = block.header := unambiguous twin known block (by simp) same
    have link : twin.parentHash = block.parentHash := congrArg Header.parentHash header
    obtain ⟨siblings, found, inside⟩ := h.waits.mem_waiting_iff.1 member
    rw [link] at found
    exact absurd same (single twin (by rwa [found]))

theorem Fed.outcome_of_fits {blocks : List Block} (h : Fed genesis blocks c)
    (unambiguous : Unambiguous genesis (block :: blocks)) (fits : c.Fits block parent total) :
    Outcome c block (c.offer block).1 (c.offer block).2 := by
  rw [h.ledger.offer_of_fits fits]
  have waits : (c.attach block (total + block.header.difficulty)).waiting = c.waiting := by
    rw [waiting, pending_attach]
    rfl
  obtain ⟨stored, left⟩ := (h.waits.attach (total + block.header.difficulty)).drain_spec
    (h.ledger.attach fits) (get?_attach_self _ _ _) (untwinned_attach h unambiguous fits _)
  rw [waits] at stored left
  refine ⟨fun dull => ?_, fun kept => ?_, fun _ => ⟨?_, left⟩⟩
  · split at dull <;> simp at dull
  · split at kept <;> cases kept
  intro hash other
  refine (stored hash other).trans ?_
  rw [blocks_attach, Table.get?_insert]
  split
  · rename_i same
    constructor
    · rintro (new | below)
      · cases new
        exact .inr ⟨same, .genesis⟩
      · exact .inr below
    · rintro (old | below)
      · rw [← same, blockByHash?, fits.fresh] at old
        cases old
      · exact .inr below
  · rfl

theorem Fed.outcome {blocks : List Block} (h : Fed genesis blocks c)
    (unambiguous : Unambiguous genesis (block :: blocks)) :
    Outcome c block (c.offer block).1 (c.offer block).2 := by
  cases fresh : c.blocks.get? block.hash with
  | some other =>
    rw [offer_of_stored fresh]
    exact ⟨fun _ => rfl, nofun, nofun⟩
  | none =>
    cases stored : c.blocks.get? block.parentHash with
    | none => exact h.outcome_of_orphan unambiguous fresh stored
    | some parent =>
      obtain ⟨total, recorded⟩ := h.ledger.total_of_stored stored
      by_cases number : block.number = parent.number + 1
      · exact h.outcome_of_fits unambiguous ⟨fresh, stored, recorded, number⟩
      · rw [h.ledger.offer_of_misnumbered fresh stored number]
        exact ⟨fun _ => rfl, nofun, nofun⟩

/-- Whatever was delivered before, an offer says of a block what its hash, its parent, its number,
the totals and the room in pending storage decide, and it connects the block together with all
that hangs below it in pending storage, or keeps it for later, or changes nothing. -/
theorem offer_after_history (config : ChainConfig) {deliveries : List Delivery}
    (unambiguous : Unambiguous genesis (block :: deliveries.flatMap Delivery.blocks)) :
    let c := history genesis config deliveries
    Verdict c block (c.offer block).1 ∧ Outcome c block (c.offer block).1 (c.offer block).2 ∧
      (genesis.number = 0 → c.blockCount < 2 ^ 64 → ∀ hash parent,
        c.blockByHash? hash = some parent →
        (parent.number + 1).toNat = parent.number.toNat + 1) := by
  intro c
  have fed : Fed genesis (deliveries.flatMap Delivery.blocks) c :=
    (fed_new genesis config _).foldl_deliver (List.Subset.refl _)
  refine ⟨fed.ledger.verdict block, fed.outcome unambiguous, ?_⟩
  intro start countable hash parent stored
  have below := fed.ledger.number_lt hash parent stored
  rw [start, UInt64.toNat_zero] at below
  rw [UInt64.toNat_add, UInt64.toNat_one]
  exact Nat.mod_eq_of_lt (by omega)

theorem Fork.absent (member : block ∈ [Fork.start, Fork.second, Fork.first, Fork.heavy])
    (apart : block ≠ Fork.start) : (Chain.new Fork.start {}).blocks.get? block.hash = none := by
  rw [blocks_new, if_neg fun same => apart (Fork.eq_of_hash (by simp) member same).symm]

theorem Fork.offer_second :
    (Chain.new Fork.start {}).offer Fork.second =
      (.storedForLater, (Chain.new Fork.start {}).keep Fork.second) := by
  have orphan : (Chain.new Fork.start {}).blocks.get? Fork.first.hash = none :=
    Fork.absent (by simp) (by decide)
  exact (ledger_new Fork.start {}).offer_of_orphan (Fork.absent (by simp) (by decide)) orphan

/-- A block that waits is connected together with its parent. -/
theorem offer_joins_waiting :
    let c := history Fork.start {} [.block Fork.second]
    let d := (c.offer Fork.first).2
    c.waiting = [Fork.second] ∧ (c.offer Fork.first).1 = .importedBest ∧
      d.blockByHash? Fork.second.hash = some Fork.second ∧ d.waiting = [] := by
  intro c d
  have unambiguous : Unambiguous Fork.start
      (Fork.first :: ([.block Fork.second] : List Delivery).flatMap Delivery.blocks) :=
    Fork.unambiguous (show [Fork.start, Fork.first, Fork.second] ⊆ _ by simp)
  have start := ledger_new Fork.start {}
  have fresh : (Chain.new Fork.start {}).blocks.get? Fork.first.hash = none :=
    Fork.absent (by simp) (by decide)
  -- the second block comes first and waits
  have reached : c = (Chain.new Fork.start {}).keep Fork.second :=
    (history_block _ _ _).trans (congrArg Prod.snd Fork.offer_second)
  have waits : c.waiting = [Fork.second] := by
    rw [reached]
    rfl
  obtain ⟨verdict, outcome, -⟩ := offer_after_history {} unambiguous
  have below : c.blockByHash? Fork.first.parentHash = some Fork.start := by
    rw [reached]
    exact start.genesis_stored
  rw [← show c = history Fork.start {} [.block Fork.second] from rfl] at verdict outcome
  have best : (c.offer Fork.first).1 = .importedBest := by
    obtain ⟨total, recorded, said⟩ := verdict.parented (by rw [reached]; exact fresh) _ below
    have base : c.total? Fork.first.parentHash = some Fork.start.header.difficulty := by
      rw [reached]
      exact start.genesis_total
    have heaviest : c.total = Fork.start.header.difficulty := by
      rw [reached]
      exact total_new Fork.start {}
    rw [base, Option.some.injEq] at recorded
    rw [said, if_neg (by decide), heaviest, ← recorded]
    rfl
  obtain ⟨stored, left⟩ := outcome.connected (by rw [best]; rfl)
  refine ⟨waits, best, ?_, ?_⟩
  · refine (stored _ _).2 (.inr ⟨rfl, .child .genesis ?_ rfl rfl⟩)
    rw [waits]
    exact List.mem_singleton.2 rfl
  · refine List.eq_nil_iff_forall_not_mem.2 fun other member => ?_
    obtain ⟨waiting, orphan⟩ := (left other).1 member
    rw [waits, List.mem_singleton] at waiting
    have joined := (stored Fork.first.hash Fork.first).2 (.inr ⟨rfl, .genesis⟩)
    rw [waiting] at orphan
    exact absurd (joined.symm.trans orphan) nofun

end BlockSync.Chain
