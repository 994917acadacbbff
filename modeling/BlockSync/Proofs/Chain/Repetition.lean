import BlockSync.Proofs.Chain.Ranges

/-! Blocks that come again. A block that is accounted for changes nothing when it is offered once
more. A range goes past it like that, with one exception: where pending storage is full, a block
that waits in it is turned away like any other, and the range ends there. -/
namespace BlockSync.Chain

variable {genesis block : Block} {c : Chain} {blocks : List Block}

/-- The block waits, and as storage is full it would be turned away if it came again. -/
def Crowds (c : Chain) (block : Block) : Prop :=
  block ∈ c.waiting ∧ c.config.maxPendingBlocks ≤ c.pendingCount ∧
    c.blockByHash? block.hash = none

instance (c : Chain) (block : Block) : Decidable (c.Crowds block) :=
  inferInstanceAs (Decidable (_ ∧ _ ∧ _ = none))

theorem not_crowds (room : c.pendingCount < c.config.maxPendingBlocks) : ¬ c.Crowds block :=
  fun ⟨_, full, _⟩ => Nat.not_lt.2 full room

/-- What is said to a waiting block. That its hash is stored needs two headers with one hash. -/
theorem Waits.offer_of_waiting (h : Waits [] c) (ledger : Ledger genesis c)
    (waits : block ∈ c.waiting) :
    c.offer block =
      (if c.blockByHash? block.hash ≠ none then .alreadyKnown
        else if c.pendingCount < c.config.maxPendingBlocks then .storedForLater
        else .noParent, c) := by
  cases fresh : c.blocks.get? block.hash with
  | some twin =>
    rw [offer_of_stored fresh, blockByHash?, fresh, if_pos (Option.some_ne_none twin)]
  | none =>
    rw [h.offer_of_repeats ledger ⟨fresh, block, waits, rfl, rfl⟩, blockByHash?, fresh,
      if_neg (not_not.2 rfl)]

/-- A block that is accounted for leaves everything as it is. -/
theorem Waits.offer_of_settled (h : Waits [] c) (ledger : Ledger genesis c)
    (settled : c.Settled block) : (c.offer block).2 = c := by
  cases fresh : c.blocks.get? block.hash with
  | some twin => rw [offer_of_stored fresh]
  | none =>
    rcases settled with (⟨twin, stored⟩ | ⟨parent, stored, wrong⟩) | waits
    · rw [fresh] at stored
      cases stored
    · rw [ledger.offer_of_misnumbered fresh stored wrong]
    · rw [h.offer_of_waiting ledger waits]

theorem Waits.crowds_iff (h : Waits [] c) (ledger : Ledger genesis c) (settled : c.Settled block) :
    c.Crowds block ↔ (c.offer block).1 = .noParent := by
  constructor
  · rintro ⟨waits, full, fresh⟩
    rw [h.offer_of_waiting ledger waits, if_neg (not_not.2 fresh), if_neg (Nat.not_lt.2 full)]
  · intro said
    obtain ⟨fresh, orphan⟩ := ledger.orphan_of_unconnected (.inr said)
    refine ⟨?_, ledger.full_of_noParent said, fresh⟩
    rcases settled with (⟨twin, stored⟩ | ⟨parent, stored, -⟩) | waits
    · rw [fresh] at stored
      cases stored
    · rw [orphan] at stored
      cases stored
    · exact waits

/-- A range ends in its first part whatever follows, or what follows is a range of its own. -/
theorem Ledger.storeRange_append (h : Ledger genesis c) (front : List Block) :
    (∀ back, (c.storeRange (front ++ back)).2 = (c.storeRange front).2) ∨
      ∀ back, (c.storeRange (front ++ back)).2 = ((c.storeRange front).2.storeRange back).2 := by
  induction front generalizing c with
  | nil => exact .inr fun _ => rfl
  | cons first rest ih =>
    have step (back : List Block) := h.storeRange_cons first (rest ++ back)
    have alone := h.storeRange_cons first rest
    by_cases full : (c.offer first).1 = .noParent
    · refine .inl fun back => ?_
      rw [List.cons_append, step, alone, if_pos full, if_pos full]
    · simp only [if_neg full] at step alone
      simp only [List.cons_append, step, alone]
      exact ih (h.steps (steps_offer c first)).1

/-- A block that is accounted for may as well be left out of a range, unless the range ends
with it. -/
theorem Waits.storeRange_insert (h : Waits [] c) (ledger : Ledger genesis c)
    (settled : c.Settled block) (front back : List Block) :
    let d := (c.storeRange front).2
    (c.storeRange (front ++ block :: back)).2 =
      if d.Crowds block then d else (c.storeRange (front ++ back)).2 := by
  intro d
  have intact : Intact genesis c front d := h.deliver ledger (.range front)
  have sound : Ledger genesis d := (ledger.steps (steps_storeRange c front)).1
  have still : d.Settled block := intact.settled block settled
  rcases ledger.storeRange_append front with ended | onward
  · rw [ended, ended]
    exact (ite_self _).symm
  · rw [onward, onward, sound.storeRange_cons]
    by_cases crowds : d.Crowds block
    · rw [if_pos crowds, if_pos ((intact.waits.crowds_iff sound still).1 crowds)]
    · rw [if_neg crowds, if_neg (mt (intact.waits.crowds_iff sound still).2 crowds)]
      dsimp only
      rw [intact.waits.offer_of_settled sound still]

/-- As long as there is room each time that it comes, a block that is accounted for may be left
out of a range altogether. -/
theorem Waits.storeRange_filter (h : Waits [] c) (ledger : Ledger genesis c)
    (settled : c.Settled block)
    (room : ∀ front back, blocks = front ++ block :: back → ¬ (c.storeRange front).2.Crowds block) :
    (c.storeRange blocks).2 = (c.storeRange (blocks.filter (· ≠ block))).2 := by
  induction blocks generalizing c with
  | nil => rfl
  | cons first rest ih =>
    have step (later : List Block) := ledger.storeRange_cons first later
    by_cases same : first = block
    · subst same
      have past (later : List Block) :
          (c.storeRange (first :: later)).2 = (c.storeRange later).2 := by
        have skipped := h.storeRange_insert ledger settled [] later
        exact skipped.trans (if_neg (room [] rest rfl))
      rw [past, List.filter_cons_of_neg (by simp)]
      refine ih h ledger settled fun front back split => ?_
      rw [← past]
      exact room (first :: front) back (congrArg (first :: ·) split)
    · rw [List.filter_cons_of_pos (by simpa using same), step, step]
      by_cases full : (c.offer first).1 = .noParent
      · rw [if_pos full, if_pos full]
      · rw [if_neg full, if_neg full]
        have offered := h.offer ledger first
        refine ih offered.waits (ledger.steps (steps_offer c first)).1
          (offered.settled block settled) fun front back split => ?_
        have before := room (first :: front) back (congrArg (first :: ·) split)
        rwa [step, if_neg full] at before

/-- Whatever was delivered before, a waiting block that comes again changes nothing. It is told
to wait as long as there is room for one more, and is turned away otherwise. In a range it may
be left out wherever it comes, except that a range that meets it when storage is full ends. -/
theorem waiting_again (genesis : Block) (config : ChainConfig) (deliveries : List Delivery)
    (block : Block) (waits : block ∈ (history genesis config deliveries).waiting) :
    let c := history genesis config deliveries
    (c.offer block).2 = c ∧
    ((c.offer block).1 = .storedForLater ↔
      c.pendingCount < config.maxPendingBlocks ∧ c.blockByHash? block.hash = none) ∧
    ((c.offer block).1 = .noParent ↔ c.Crowds block) ∧
    (Unambiguous genesis (deliveries.flatMap Delivery.blocks) →
      c.blockByHash? block.hash = none) ∧
    (∀ front back,
      let d := (c.storeRange front).2
      (c.storeRange (front ++ block :: back)).2 =
        if d.Crowds block then d else (c.storeRange (front ++ back)).2) ∧
    ∀ blocks, (∀ front back, blocks = front ++ block :: back →
        ¬ (c.storeRange front).2.Crowds block) →
      (c.storeRange blocks).2 = (c.storeRange (blocks.filter (· ≠ block))).2 := by
  intro c
  have ledger : Ledger genesis c := ledger_history genesis config deliveries
  have order : Waits [] c := (waits_history genesis config deliveries).1
  have settings : c.config = config := (steps_history genesis config deliveries).config_eq
  have settled : c.Settled block := .inr waits
  have said := order.offer_of_waiting ledger waits
  refine ⟨by rw [said], ?_, (order.crowds_iff ledger settled).symm, ?_,
    order.storeRange_insert ledger settled, fun blocks => order.storeRange_filter ledger settled⟩
  · rw [said, ← settings]
    cases c.blockByHash? block.hash with
    | some twin => simp
    | none => simp
  · intro unambiguous
    have fed : Fed genesis (deliveries.flatMap Delivery.blocks) c :=
      (fed_new genesis config _).foldl_deliver (List.Subset.refl _)
    exact fed.unconnected unambiguous waits

theorem Fork.history_second {config : ChainConfig} (room : 0 < config.maxPendingBlocks) :
    history start config [.block second] = (Chain.new start config).keep second := by
  have fresh : (Chain.new start config).blocks.get? second.hash = none :=
    absent (by simp) (by decide)
  have orphan : (Chain.new start config).blocks.get? first.hash = none :=
    absent (by simp) (by decide)
  rw [history_block, (ledger_new start config).offer_of_orphan fresh orphan]
  obtain ⟨full, -⟩ | ⟨-, -, twin, member, -⟩ | ⟨-, kept, -⟩ :=
    storePending_cases (Chain.new start config) second
  · exact absurd room (Nat.not_lt.2 full)
  · cases member
  · rw [kept]

/-- With room for more, a waiting block that comes again is told to wait, and a range goes past
it to its parent. -/
theorem waiting_again_with_room :
    let c := history Fork.start {} [.block Fork.second]
    Fork.second ∈ c.waiting ∧ (c.offer Fork.second).1 = .storedForLater ∧
      (c.storeRange [Fork.second, Fork.first]).2 = (c.storeRange [Fork.first]).2 := by
  intro c
  have reached : c = (Chain.new Fork.start {}).keep Fork.second := Fork.history_second (by decide)
  have waits : Fork.second ∈ c.waiting := by
    rw [reached]
    exact List.mem_singleton.2 rfl
  have room : c.pendingCount < c.config.maxPendingBlocks := by
    rw [reached]
    decide
  have settings : c.config = {} := (steps_history Fork.start {} [.block Fork.second]).config_eq
  have unambiguous : Unambiguous Fork.start
      (([.block Fork.second] : List Delivery).flatMap Delivery.blocks) :=
    Fork.unambiguous (show [Fork.start, Fork.second] ⊆ _ by simp)
  obtain ⟨-, later, -, unknown, inserted, -⟩ :=
    waiting_again Fork.start {} [.block Fork.second] Fork.second waits
  rw [← show c = history Fork.start {} [.block Fork.second] from rfl] at later unknown inserted
  clear_value c
  refine ⟨waits, later.2 ⟨settings ▸ room, unknown unambiguous⟩, ?_⟩
  have past := inserted [] [Fork.first]
  simp only [List.nil_append, storeRange_nil] at past
  exact past.trans (if_neg (not_crowds room))

/-- What becomes of the second block of a fork when it is all that there is room for. -/
theorem Fork.second_turned_away {c : Chain} (ledger : Ledger start c)
    (reached : c = (Chain.new start { maxPendingBlocks := 1 }).keep second) :
    second ∈ c.waiting ∧ (c.offer second).1 = .noParent ∧
      (c.storeRange [second, first]).2.blockByHash? first.hash = none ∧
      ∃ other, (c.storeRange [first]).2.blockByHash? first.hash = some other := by
  have unknown {block : Block} (member : block ∈ [start, second, first, heavy])
      (apart : block ≠ start) : c.blocks.get? block.hash = none := by
    rw [reached]
    exact absent member apart
  have fresh : c.blocks.get? second.hash = none := unknown (by simp) (by decide)
  have orphan : c.blocks.get? first.hash = none := unknown (by simp) (by decide)
  have base : c.blocks.get? first.parentHash = some start := ledger.genesis_stored
  have next : first.number = start.number + 1 := number_child start 1
  have said : (c.offer second).1 = .noParent := by
    rw [ledger.offer_of_orphan fresh orphan, reached]
    rfl
  have taken : (c.offer first).1 ≠ .noParent := by
    intro refused
    have missing := (ledger.orphan_of_unconnected (.inr refused)).2
    rw [base] at missing
    cases missing
  refine ⟨?_, said, ?_, ?_⟩
  · rw [reached]
    exact List.mem_singleton.2 rfl
  · rw [ledger.storeRange_cons, if_pos said]
    exact orphan
  · rw [ledger.storeRange_cons, if_neg taken]
    exact ledger.stored_of_offer first (.inr (.inr ⟨start, base, next⟩))

/-- When the block that waits is all that there is room for, it is turned away if it comes again,
and a range that begins with it does not come to its parent. -/
theorem turned_away_again :
    let c := history Fork.start { maxPendingBlocks := 1 } [.block Fork.second]
    Fork.second ∈ c.waiting ∧ (c.offer Fork.second).1 = .noParent ∧
      (c.storeRange [Fork.second, Fork.first]).2.blockByHash? Fork.first.hash = none ∧
      ∃ other, (c.storeRange [Fork.first]).2.blockByHash? Fork.first.hash = some other :=
  Fork.second_turned_away (ledger_history _ _ _) (Fork.history_second (by decide))

end BlockSync.Chain
