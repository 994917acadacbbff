import BlockSync.Proofs.Chain.Offers

/-! What the count of a range is. A range offers its blocks in turn until one finds no room. It
counts the turns that put a block into pending storage, and with them the turns of blocks that
wait already. The blocks that are stored or connected are not counted. -/
namespace BlockSync.Chain

variable {genesis block first other : Block} {c : Chain} {rest blocks : List Block}

/-- Some blocks, each with the chain that it meets when they are offered one after another. -/
def turns (c : Chain) : List Block → List (Chain × Block)
  | [] => []
  | block :: rest => (c, block) :: turns (c.offer block).2 rest

/-- The offer puts the block into pending storage. -/
def Adds (turn : Chain × Block) : Prop :=
  turn.2 ∉ turn.1.waiting ∧ turn.2 ∈ (turn.1.offer turn.2).2.waiting

/-- The block is not stored, and one with its hash waits for the same parent. -/
def Repeats (turn : Chain × Block) : Prop :=
  turn.1.blockByHash? turn.2.hash = none ∧
    ∃ twin ∈ turn.1.waiting, twin.parentHash = turn.2.parentHash ∧ twin.hash = turn.2.hash

instance : DecidablePred Adds :=
  fun turn => inferInstanceAs (Decidable (turn.2 ∉ _ ∧ turn.2 ∈ _))

instance : DecidablePred Repeats :=
  fun turn => inferInstanceAs (Decidable (_ = none ∧ ∃ twin ∈ turn.1.waiting, _))

theorem Waits.repeats_iff (h : Waits [] c) (fresh : c.blocks.get? block.hash = none) :
    Repeats (c, block) ↔
      ∃ twin ∈ (c.pending.get? block.parentHash).getD [], twin.hash = block.hash := by
  constructor
  · rintro ⟨-, twin, member, link, same⟩
    obtain ⟨siblings, found, inside⟩ := h.mem_waiting_iff.1 member
    refine ⟨twin, ?_, same⟩
    rwa [← link, found]
  · rintro ⟨twin, member, same⟩
    obtain ⟨link, waits⟩ := h.siblings _ twin member
    exact ⟨fresh, twin, waits, link, same⟩

/-- A block that waits already is told to wait, as long as there is room for one more, and
nothing changes. -/
theorem Waits.offer_of_repeats (h : Waits [] c) (ledger : Ledger genesis c)
    (repeats : Repeats (c, block)) :
    c.offer block =
      (if c.pendingCount < c.config.maxPendingBlocks then .storedForLater else .noParent, c) := by
  obtain ⟨fresh, twin, member, link, -⟩ := id repeats
  have orphan := (h.orphaned twin member).resolve_right List.not_mem_nil
  rw [link] at orphan
  rw [ledger.offer_of_orphan fresh orphan]
  obtain ⟨full, kept⟩ | ⟨room, kept, -⟩ | ⟨room, kept, single⟩ := storePending_cases c block
  · rw [kept]
  · rw [kept]
  · obtain ⟨sibling, inside, same⟩ := (h.repeats_iff fresh).1 repeats
    exact absurd same (single sibling inside)

/-- Only a block that is kept for later comes into pending storage. -/
theorem Waits.mem_waiting_of_offer (h : Waits [] c) (ledger : Ledger genesis c)
    (apart : (c.offer block).1 ≠ .storedForLater) (left : other ∈ (c.offer block).2.waiting) :
    other ∈ c.waiting := by
  cases fresh : c.blocks.get? block.hash with
  | some stored => rwa [offer_of_stored fresh] at left
  | none =>
    cases above : c.blocks.get? block.parentHash with
    | none =>
      rw [ledger.offer_of_orphan fresh above] at apart left
      obtain ⟨full, kept⟩ | ⟨room, -, -⟩ | ⟨room, -, -⟩ := storePending_cases c block
      · rwa [kept] at left
      · simp [room] at apart
      · simp [room] at apart
    | some parent =>
      by_cases number : block.number = parent.number + 1
      · obtain ⟨total, recorded⟩ := ledger.total_of_stored above
        obtain ⟨siblings, found, inside⟩ := (h.offer ledger block).waits.mem_waiting_iff.1 left
        rw [ledger.offer_of_fits ⟨fresh, above, recorded, number⟩] at found
        have before := pending_of_drain _ _ found
        rw [pending_attach] at before
        exact h.mem_waiting_iff.2 ⟨siblings, before, inside⟩
      · rwa [ledger.offer_of_misnumbered fresh above number] at left

/-- Of the blocks that are told to wait those come into pending storage that do not wait already. -/
theorem Waits.adds_iff (h : Waits [] c) (ledger : Ledger genesis c) (block : Block) :
    Adds (c, block) ↔ (c.offer block).1 = .storedForLater ∧ ¬ Repeats (c, block) := by
  constructor
  · rintro ⟨new, left⟩
    refine ⟨?_, fun repeats => ?_⟩
    · by_contra apart
      exact new (h.mem_waiting_of_offer ledger apart left)
    · rw [h.offer_of_repeats ledger repeats] at left
      exact new left
  · rintro ⟨said, single⟩
    obtain ⟨fresh, orphan⟩ := ledger.orphan_of_unconnected (.inl said)
    refine ⟨fun member => single ⟨fresh, block, member, rfl, rfl⟩, ?_⟩
    rw [h.repeats_iff fresh] at single
    rw [ledger.offer_of_orphan fresh orphan] at said ⊢
    obtain ⟨full, -⟩ | ⟨-, -, twin⟩ | ⟨-, kept, -⟩ := storePending_cases c block
    · simp [Nat.not_lt.2 full] at said
    · exact absurd twin single
    · rw [kept]
      exact (h.waiting_keep block).mem_iff.2 List.mem_cons_self

/-- A turn that finds room is counted for one of two reasons, if it is counted. -/
theorem Waits.count_turn (h : Waits [] c) (ledger : Ledger genesis c)
    (room : (c.offer block).1 ≠ .noParent) :
    (if (c.offer block).1 = .storedForLater then 1 else 0) =
      (if Adds (c, block) then 1 else 0) + if Repeats (c, block) then 1 else 0 := by
  have adds := h.adds_iff ledger block
  by_cases repeats : Repeats (c, block)
  · have said : (c.offer block).1 = .storedForLater := by
      rw [h.offer_of_repeats ledger repeats] at room ⊢
      split at room
      · rw [if_pos ‹_›]
      · exact absurd rfl room
    simp [adds, said, repeats]
  · simp [adds, repeats]

/-- What a range does with some blocks. It offers those in front, the next one finds no room, and
the count is of the blocks that it added and of those that were waiting when their turn came. -/
structure Ranged (c : Chain) (blocks front back : List Block) : Prop where
  split : blocks = front ++ back
  chain : (c.storeRange blocks).2 = c.offerAll front
  room : ∀ turn ∈ c.turns front, (turn.1.offer turn.2).1 ≠ .noParent
  ended : ∀ next ∈ back.head?, ((c.offerAll front).offer next).1 = .noParent
  apart : ∀ turn ∈ c.turns front, Adds turn → ¬ Repeats turn
  count : (c.storeRange blocks).1 =
    (c.turns front).countP (fun turn => Adds turn) + (c.turns front).countP fun turn => Repeats turn

theorem Waits.ranged (h : Waits [] c) (ledger : Ledger genesis c) (blocks : List Block) :
    ∃ front back, Ranged c blocks front back := by
  induction blocks generalizing c with
  | nil => exact ⟨[], [], rfl, rfl, nofun, nofun, nofun, rfl⟩
  | cons first rest ih =>
    have step := ledger.storeRange_cons first rest
    by_cases full : (c.offer first).1 = .noParent
    · rw [if_pos full] at step
      refine ⟨[], first :: rest, rfl, ?_, nofun, ?_, nofun, ?_⟩
      · rw [step]
        rfl
      · simpa [Chain.offerAll] using full
      · rw [step]
        rfl
    · rw [if_neg full] at step
      obtain ⟨front, back, later⟩ := ih (h.offer ledger first).waits
        (ledger.steps (steps_offer c first)).1
      refine ⟨first :: front, back, ?_, ?_, ?_, later.ended, ?_, ?_⟩
      · rw [later.split, List.cons_append]
      · rw [step]
        exact later.chain
      · exact List.forall_mem_cons.2 ⟨full, later.room⟩
      · exact List.forall_mem_cons.2
          ⟨fun adds => ((h.adds_iff ledger first).1 adds).2, later.apart⟩
      · have here := h.count_turn ledger full
        simp only [step, turns, List.countP_cons, decide_eq_true_eq, later.count, here]
        omega

/-- Whatever was delivered before, the count of a range is the number of blocks that it puts into
pending storage, and besides them of those that wait already: it is exact if there are none. -/
theorem count_of_range (genesis : Block) (config : ChainConfig) (deliveries : List Delivery)
    (blocks : List Block) :
    let c := history genesis config deliveries
    ∃ front back, Ranged c blocks front back ∧
      ((c.storeRange blocks).1 = (c.turns front).countP (fun turn => Adds turn) ↔
        ∀ turn ∈ c.turns front, ¬ Repeats turn) := by
  intro c
  have waits : Waits [] c := (waits_history genesis config deliveries).1
  obtain ⟨front, back, ranged⟩ := waits.ranged (ledger_history genesis config deliveries) blocks
  refine ⟨front, back, ranged, ?_⟩
  rw [ranged.count, Nat.add_eq_left, List.countP_eq_zero]
  simp

/-- A range that comes again is counted again, although nothing is added. -/
theorem counted_again :
    let c := history Fork.start {} [.range [Fork.second]]
    c.waiting = [Fork.second] ∧ c.storeRange [Fork.second] = (1, c) ∧
      (c.turns [Fork.second]).countP (fun turn => Adds turn) = 0 := by
  intro c
  have ledger : Ledger Fork.start c := ledger_history _ _ _
  have waits : Waits [] c := (waits_history _ _ _).1
  have kept : (Chain.new Fork.start {}).storeRange [Fork.second] =
      (1, (Chain.new Fork.start {}).keep Fork.second) := by
    simp [(ledger_new Fork.start {}).storeRange_cons, Fork.offer_second]
  have reached : c = (Chain.new Fork.start {}).keep Fork.second :=
    (history_range _ _ _).trans (congrArg Prod.snd kept)
  have waiting : c.waiting = [Fork.second] := by
    rw [reached]
    rfl
  have repeats : Repeats (c, Fork.second) := by
    refine ⟨?_, Fork.second, by simp [waiting], rfl, rfl⟩
    rw [reached]
    exact Fork.absent (by simp) (by decide)
  have again : c.offer Fork.second = (.storedForLater, c) := by
    have room : c.pendingCount < c.config.maxPendingBlocks := by
      rw [reached]
      decide
    rw [waits.offer_of_repeats ledger repeats, if_pos room]
  refine ⟨waiting, ?_, ?_⟩
  · simp [ledger.storeRange_cons, again]
  · simp [turns, waits.adds_iff ledger, repeats]

end BlockSync.Chain
