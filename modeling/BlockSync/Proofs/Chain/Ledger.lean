import BlockSync.Proofs.Chain.Growth

/-! The tables of a chain. In every state that a history reaches, blocks and totals
have the same keys, each block is filed under its own hash and, unless it is the
genesis block, extends a stored block in number and total, and nothing is heavier
than the best block. A step forgets nothing and moves the best block only to a
heavier one. None of this needs an assumption on hashes. -/
namespace BlockSync.Chain

/-- More work weighs more, exactly if the sum does not wrap. -/
theorem lt_add_iff {total added : Difficulty} (positive : 0 < added) :
    total < total + added ↔ total.toNat + added.toNat < 2 ^ 256 := by
  have some_work : 0 < added.toNat := BitVec.lt_def.1 positive
  have bound := added.isLt
  rw [BitVec.lt_def, BitVec.toNat_add]
  omega

structure Ledger (genesis : Block) (c : Chain) : Prop where
  genesis_hash : c.genesis = genesis.hash
  genesis_stored : c.blocks.get? genesis.hash = some genesis
  genesis_total : c.totals.get? genesis.hash = some genesis.header.difficulty
  same_keys : ∀ hash, c.totals.contains hash = c.blocks.contains hash
  own_hash : ∀ hash block, c.blocks.get? hash = some block → block.hash = hash
  extends_parent : ∀ hash block, c.blocks.get? hash = some block → hash ≠ genesis.hash →
    ∃ parent total, c.blocks.get? block.parentHash = some parent ∧
      block.number = parent.number + 1 ∧ c.totals.get? block.parentHash = some total ∧
      c.totals.get? hash = some (total + block.header.difficulty)
  number_lt : ∀ hash block, c.blocks.get? hash = some block →
    block.number.toNat < genesis.number.toNat + c.blockCount
  best_total : c.totals.get? c.best = some c.total
  best_heaviest : ∀ hash total, c.totals.get? hash = some total → total ≤ c.total

/-- What lies between a chain and what it becomes. -/
structure Extends (c d : Chain) : Prop where
  blocks_kept : ∀ hash block, c.blocks.get? hash = some block → d.blocks.get? hash = some block
  totals_kept : ∀ hash total, c.totals.get? hash = some total → d.totals.get? hash = some total
  total_le : c.total ≤ d.total
  best_moves_up : d.best = c.best ∨ c.total < d.total

theorem Extends.refl (c : Chain) : Extends c c :=
  ⟨fun _ _ h => h, fun _ _ h => h, BitVec.le_refl _, .inl rfl⟩

theorem Extends.trans {c d e : Chain} (h : Extends c d) (k : Extends d e) : Extends c e where
  blocks_kept hash block stored := k.blocks_kept hash block (h.blocks_kept hash block stored)
  totals_kept hash total stored := k.totals_kept hash total (h.totals_kept hash total stored)
  total_le := BitVec.le_trans h.total_le k.total_le
  best_moves_up := by
    rcases k.best_moves_up with same | above
    · rcases h.best_moves_up with unmoved | above
      · exact .inl (same.trans unmoved)
      · exact .inr (Std.lt_of_lt_of_le above k.total_le)
    · exact .inr (Std.lt_of_le_of_lt h.total_le above)

theorem blocks_new (genesis : Block) (config : ChainConfig) (hash : Hash) :
    (new genesis config).blocks.get? hash = if genesis.hash = hash then some genesis else none := by
  rw [new, Table.get?_insert, Table.get?_empty]

theorem totals_new (genesis : Block) (config : ChainConfig) (hash : Hash) :
    (new genesis config).totals.get? hash =
      if genesis.hash = hash then some genesis.header.difficulty else none := by
  rw [new, Table.get?_insert, Table.get?_empty]

theorem total_new (genesis : Block) (config : ChainConfig) :
    (new genesis config).total = genesis.header.difficulty := by
  change ((new genesis config).totals.get? genesis.hash).getD 0 = _
  rw [totals_new, if_pos rfl, Option.getD_some]

theorem ledger_new (genesis : Block) (config : ChainConfig) :
    Ledger genesis (.new genesis config) where
  genesis_hash := rfl
  genesis_stored := by rw [blocks_new, if_pos rfl]
  genesis_total := by rw [totals_new, if_pos rfl]
  same_keys hash := by
    simp only [Table.contains, blocks_new, totals_new]
    split <;> rfl
  own_hash hash block stored := by
    rw [blocks_new] at stored
    split at stored <;> cases stored
    assumption
  extends_parent hash block stored other := by
    rw [blocks_new, if_neg (Ne.symm other)] at stored
    cases stored
  number_lt hash block stored := by
    rw [blocks_new] at stored
    split at stored <;> cases stored
    exact Nat.lt_add_of_pos_right Nat.one_pos
  best_total := by
    rw [total_new]
    exact (totals_new genesis config _).trans (if_pos rfl)
  best_heaviest hash total recorded := by
    rw [totals_new] at recorded
    split at recorded <;> cases recorded
    rw [total_new]
    exact BitVec.le_refl _

variable {genesis block parent : Block} {c d : Chain} {total : Difficulty}

theorem Ledger.total_of_stored (h : Ledger genesis c) {hash : Hash}
    (stored : c.blocks.get? hash = some block) : ∃ total, c.totals.get? hash = some total := by
  rw [← Table.contains_eq_true_iff, h.same_keys]
  exact Table.contains_eq_true_iff.2 ⟨block, stored⟩

theorem Ledger.stored_of_total (h : Ledger genesis c) {hash : Hash}
    (recorded : c.totals.get? hash = some total) : ∃ block, c.blocks.get? hash = some block := by
  rw [← Table.contains_eq_true_iff, ← h.same_keys]
  exact Table.contains_eq_true_iff.2 ⟨total, recorded⟩

theorem Ledger.total_eq_none_iff (h : Ledger genesis c) {hash : Hash} :
    c.totals.get? hash = none ↔ c.blocks.get? hash = none := by
  rw [← Table.contains_eq_false_iff, ← Table.contains_eq_false_iff, h.same_keys]

theorem Ledger.ne_of_fresh (h : Ledger genesis c) (fresh : c.blocks.get? block.hash = none)
    {hash : Hash} {total : Difficulty} (recorded : c.totals.get? hash = some total) :
    block.hash ≠ hash := by
  rintro rfl
  rw [h.total_eq_none_iff.2 fresh] at recorded
  cases recorded

theorem Ledger.total_grow (h : Ledger genesis c) (fresh : c.blocks.get? block.hash = none)
    (total : Difficulty) : (c.grow block total).total = c.total := by
  simp [grow, Chain.total, Table.get?_insert, h.ne_of_fresh fresh h.best_total]

theorem Ledger.best_attach (h : Ledger genesis c) (fresh : c.blocks.get? block.hash = none)
    (total : Difficulty) :
    (c.attach block total).best = if c.total < total then block.hash else c.best := by
  unfold attach
  rw [h.total_grow fresh]
  split <;> rfl

theorem Ledger.total_attach (h : Ledger genesis c) (fresh : c.blocks.get? block.hash = none)
    (total : Difficulty) :
    (c.attach block total).total = if c.total < total then total else c.total := by
  change ((c.attach block total).totals.get? (c.attach block total).best).getD 0 = _
  rw [h.best_attach fresh, totals_attach, Table.get?_insert]
  split
  · simp
  · rw [if_neg (h.ne_of_fresh fresh h.best_total), h.best_total, Option.getD_some]

theorem Ledger.extends_attach (h : Ledger genesis c) (fresh : c.blocks.get? block.hash = none)
    (total : Difficulty) : Extends c (c.attach block total) where
  blocks_kept hash other stored := by
    have distinct : block.hash ≠ hash := by
      rintro rfl
      rw [fresh] at stored
      cases stored
    rw [blocks_attach, Table.get?_insert, if_neg distinct, stored]
  totals_kept hash other recorded := by
    rw [totals_attach, Table.get?_insert, if_neg (h.ne_of_fresh fresh recorded), recorded]
  total_le := by
    rw [h.total_attach fresh]
    split
    · rename_i heavier
      exact BitVec.le_of_lt heavier
    · exact BitVec.le_refl _
  best_moves_up := by
    rw [h.best_attach fresh, h.total_attach fresh]
    split
    · rename_i heavier
      exact .inr heavier
    · exact .inl rfl

theorem blockCount_attach (fits : c.Fits block parent total) (weight : Difficulty) :
    (c.attach block weight).blockCount = c.blockCount + 1 := by
  rw [blockCount, blocks_attach]
  exact Table.size_insert_of_absent block fits.fresh

theorem Ledger.attach (h : Ledger genesis c) (fits : c.Fits block parent total) :
    Ledger genesis (c.attach block (total + block.header.difficulty)) := by
  have grown := h.extends_attach fits.fresh (total + block.header.difficulty)
  have stored (hash : Hash) (other : Block)
      (found : (c.attach block (total + block.header.difficulty)).blocks.get? hash = some other) :
      block.hash = hash ∧ other = block ∨ c.blocks.get? hash = some other := by
    rw [blocks_attach, Table.get?_insert] at found
    split at found
    · rename_i same
      exact .inl ⟨same, (Option.some.inj found).symm⟩
    · exact .inr found
  refine
    { genesis_hash := by rw [genesis_attach, h.genesis_hash]
      genesis_stored := grown.blocks_kept _ _ h.genesis_stored
      genesis_total := grown.totals_kept _ _ h.genesis_total
      same_keys := ?_, own_hash := ?_, extends_parent := ?_, number_lt := ?_
      best_total := ?_, best_heaviest := ?_ }
  · intro hash
    simp only [Table.contains, blocks_attach, totals_attach, Table.get?_insert]
    split
    · rfl
    · exact h.same_keys hash
  · intro hash other found
    rcases stored hash other found with ⟨same, rfl⟩ | old
    · exact same
    · exact h.own_hash hash other old
  · intro hash other found apart
    rcases stored hash other found with ⟨rfl, rfl⟩ | old
    · refine ⟨parent, total, grown.blocks_kept _ _ fits.parent_stored, fits.number,
        grown.totals_kept _ _ fits.parent_total, ?_⟩
      rw [totals_attach, Table.get?_insert, if_pos rfl]
    · obtain ⟨under, weight, hparent, hnumber, hweight, htotal⟩ :=
        h.extends_parent hash other old apart
      exact ⟨under, weight, grown.blocks_kept _ _ hparent, hnumber, grown.totals_kept _ _ hweight,
        grown.totals_kept _ _ htotal⟩
  · intro hash other found
    rw [blockCount_attach fits]
    rcases stored hash other found with ⟨rfl, rfl⟩ | old
    · have below := h.number_lt _ _ fits.parent_stored
      have next : other.number.toNat ≤ parent.number.toNat + 1 := by
        rw [fits.number, UInt64.toNat_add]
        exact Nat.mod_le _ _
      omega
    · have below := h.number_lt _ _ old
      omega
  · rw [h.best_attach fits.fresh, h.total_attach fits.fresh, totals_attach, Table.get?_insert]
    split
    · exact if_pos rfl
    · rw [if_neg (h.ne_of_fresh fits.fresh h.best_total), h.best_total]
  · intro hash weight found
    rw [totals_attach, Table.get?_insert] at found
    rw [h.total_attach fits.fresh]
    split at found
    · cases found
      split
      · exact BitVec.le_refl _
      · rename_i lighter
        exact BitVec.not_lt.1 lighter
    · have bound := h.best_heaviest hash weight found
      split
      · rename_i heavier
        exact BitVec.le_trans bound (BitVec.le_of_lt heavier)
      · exact bound

/-- A table of fewer than `2 ^ 64` blocks leaves no room for a number to wrap. -/
theorem Ledger.number_toNat (h : Ledger genesis c) (start : genesis.number = 0)
    (countable : c.blockCount < 2 ^ 64) {hash : Hash} (stored : c.blocks.get? hash = some block)
    (apart : hash ≠ genesis.hash) :
    ∃ parent, c.blocks.get? block.parentHash = some parent ∧
      block.number.toNat = parent.number.toNat + 1 := by
  obtain ⟨parent, -, hparent, hnumber, -, -⟩ := h.extends_parent hash block stored apart
  have below := h.number_lt _ _ hparent
  rw [start, UInt64.toNat_zero, Nat.zero_add] at below
  refine ⟨parent, hparent, ?_⟩
  rw [hnumber, UInt64.toNat_add, UInt64.toNat_one]
  exact Nat.mod_eq_of_lt (by omega)

theorem Ledger.step (h : Ledger genesis c) (step : Step c d) : Ledger genesis d ∧ Extends c d := by
  cases step with
  | attach fits => exact ⟨h.attach fits, h.extends_attach fits.fresh _⟩
  | pending => exact ⟨{ h with }, ⟨fun _ _ h => h, fun _ _ h => h, BitVec.le_refl _, .inl rfl⟩⟩

theorem Ledger.steps (h : Ledger genesis c) (steps : Steps c d) :
    Ledger genesis d ∧ Extends c d := by
  induction steps with
  | refl => exact ⟨h, .refl c⟩
  | tail _ step ih =>
    obtain ⟨sound, before⟩ := ih
    obtain ⟨next, after⟩ := sound.step step
    exact ⟨next, before.trans after⟩

theorem Ledger.deliver (h : Ledger genesis c) (delivery : Delivery) :
    Ledger genesis (c.deliver delivery) ∧ Extends c (c.deliver delivery) :=
  h.steps (steps_deliver c delivery)

/-- All that an offer can do: nothing to a stored block, nothing but keep a block below an
absent parent, refuse a wrong number, or attach the block and drain what waits below it. -/
theorem Ledger.offer_cases (h : Ledger genesis c) (block : Block) :
    ((∃ other, c.blocks.get? block.hash = some other) ∧ c.offer block = (.alreadyKnown, c)) ∨
    (c.blocks.get? block.parentHash = none ∧
      ∃ result, (result = .storedForLater ∨ result = .noParent) ∧
        c.offer block = (result, (c.storePending block).2)) ∨
    (c.Misnumbered block ∧ c.offer block = (.invalid, c)) ∨
    ∃ result parent total, c.Fits block parent total ∧ result.isImported = true ∧
      c.offer block =
        (result, ((c.attach block (total + block.header.difficulty)).drain [block.hash]).2) := by
  by_cases known : c.blocks.contains block.hash = true
  · refine .inl ⟨Table.contains_eq_true_iff.1 known, ?_⟩
    rw [offer, if_pos known]
  · have fresh := get?_eq_none_of_not_contains known
    right
    unfold offer
    rw [if_neg known]
    obtain ⟨refused, missing⟩ | ⟨invalid, wrong⟩ |
      ⟨result, parent, total, fits, imported, connected⟩ :=
      connect_cases fresh
    · refine .inl ⟨missing.elim h.total_eq_none_iff.1 fun absent => absent, ?_⟩
      rw [refused]
      dsimp only
      split <;> rename_i kept <;> rw [kept]
      · exact ⟨_, .inl rfl, rfl⟩
      · exact ⟨_, .inr rfl, rfl⟩
    · refine .inr (.inl ⟨wrong, ?_⟩)
      rw [invalid]
      rfl
    · refine .inr (.inr ⟨result, parent, total, fits, imported, ?_⟩)
      rw [connected]
      simp only [imported, if_true]

theorem Ledger.stored_of_offer (h : Ledger genesis c) (block : Block)
    (taken : (c.offer block).1.isImported = true ∨ (c.offer block).1 = .alreadyKnown ∨
      ∃ parent, c.blocks.get? block.parentHash = some parent ∧ block.number = parent.number + 1) :
    ∃ other, (c.offer block).2.blocks.get? block.hash = some other := by
  obtain ⟨known, result⟩ | ⟨orphan, result, kept, offered⟩ | ⟨⟨parent, stored, wrong⟩, refused⟩ |
    ⟨result, parent, total, fits, -, connected⟩ := h.offer_cases block
  · rw [result]
    exact known
  · rcases taken with imported | known | ⟨parent, stored, -⟩
    · rw [offered] at imported
      rcases kept with rfl | rfl <;> cases imported
    · rw [offered] at known
      rcases kept with rfl | rfl <;> cases known
    · rw [orphan] at stored
      cases stored
  · rcases taken with imported | known | ⟨other, found, number⟩
    · rw [refused] at imported
      cases imported
    · rw [refused] at known
      cases known
    · rw [stored, Option.some.injEq] at found
      exact absurd (found ▸ number) wrong
  · rw [connected]
    have grown := ((h.attach fits).steps (steps_drain _ [block.hash])).2
    exact ⟨block, grown.blocks_kept _ _ (get?_attach_self _ _ _)⟩

theorem Ledger.connect_of_fits (h : Ledger genesis c) (fits : c.Fits block parent total) :
    c.connect block =
      some (if c.total < total + block.header.difficulty then .importedBest else .importedNotBest,
        c.attach block (total + block.header.difficulty)) := by
  unfold connect
  rw [fits.parent_total, fits.parent_stored]
  refine (if_neg (Decidable.not_not.2 fits.number)).trans ?_
  rw [← h.total_grow fits.fresh (total + block.header.difficulty), Chain.attach]
  by_cases heavier : (c.grow block (total + block.header.difficulty)).total <
      total + block.header.difficulty
  · rw [if_pos heavier, if_pos heavier]
    exact if_pos heavier
  · rw [if_neg heavier, if_neg heavier]
    exact if_neg heavier

theorem Ledger.offer_of_fits (h : Ledger genesis c) (fits : c.Fits block parent total) :
    c.offer block =
      (if c.total < total + block.header.difficulty then .importedBest else .importedNotBest,
        ((c.attach block (total + block.header.difficulty)).drain [block.hash]).2) := by
  have absent : ¬ c.blocks.contains block.hash = true := by
    simp [Table.contains, fits.fresh]
  rw [offer, if_neg absent, h.connect_of_fits fits]
  dsimp only
  by_cases heavier : c.total < total + block.header.difficulty
  · rw [if_pos heavier]
    rfl
  · rw [if_neg heavier]
    rfl

/-- A block that fits, and for which nothing waits, is attached and that is all. -/
theorem Ledger.offer_fits (h : Ledger genesis c) (fits : c.Fits block parent total)
    (alone : c.pending.get? block.hash = none) :
    (c.offer block).2 = c.attach block (total + block.header.difficulty) := by
  rw [h.offer_of_fits fits]
  dsimp only
  rw [drain_cons_absent, drain_nil]
  rwa [pending_attach]

theorem ledger_history (genesis : Block) (config : ChainConfig) (deliveries : List Delivery) :
    Ledger genesis (history genesis config deliveries) :=
  ((ledger_new genesis config).steps (steps_history genesis config deliveries)).1

theorem Steps.config_eq (steps : Steps c d) : d.config = c.config := by
  induction steps with
  | refl => rfl
  | tail _ step ih =>
    cases step with
    | attach => rw [config_attach, ih]
    | pending => exact ih

/-- Two chains from one genesis block give a block they share the same total, as long as
a hash means the same header in both. -/
theorem totals_agree {config : ChainConfig} {other : Chain}
    (steps : Steps (.new genesis config) c) (ledger : Ledger genesis other)
    (agree : ∀ hash left right,
      c.blocks.get? hash = some left → other.blocks.get? hash = some right →
      left.header = right.header)
    {hash : Hash} {left right : Block} (here : c.blocks.get? hash = some left)
    (there : other.blocks.get? hash = some right) :
    c.totals.get? hash = other.totals.get? hash := by
  -- on the steps of the first chain only: the totals of the second are fixed by its ledger
  induction steps generalizing hash left right with
  | refl =>
    rw [blocks_new] at here
    split at here <;> cases here
    rename_i same
    rw [← same, ledger.genesis_total, totals_new, if_pos rfl]
  | @tail before after steps step ih =>
    have sound := ((ledger_new genesis config).steps steps).1
    have grown := (sound.step step).2
    have earlier := @ih fun hash left right here =>
      agree hash left right (grown.blocks_kept _ _ here)
    cases step with
    | pending => exact earlier here there
    | @attach block parent total fits =>
      rw [blocks_attach, Table.get?_insert] at here
      rw [totals_attach, Table.get?_insert]
      split at here
      · rename_i same
        subst same
        have apart : block.hash ≠ genesis.hash := sound.ne_of_fresh fits.fresh sound.genesis_total
        have header : block.header = right.header := agree block.hash block right
          (get?_attach_self _ _ _) there
        obtain ⟨above, weight, stored, -, recorded, sum⟩ :=
          ledger.extends_parent _ right there apart
        have link : right.parentHash = block.parentHash := congrArg Header.parentHash header.symm
        rw [link] at stored recorded
        have shared := earlier fits.parent_stored stored
        rw [fits.parent_total, recorded, Option.some.injEq] at shared
        rw [if_pos rfl, sum, shared, header]
      · rename_i apart
        rw [if_neg apart]
        exact earlier here there

/-- In every state that deliveries lead to the tables are sound, the next delivery only
extends them, and numbers are exact as long as they can be counted. -/
theorem tables_of_history (genesis : Block) (config : ChainConfig) (deliveries : List Delivery) :
    let c := history genesis config deliveries
    Ledger genesis c ∧
      (∀ delivery, Extends c (c.deliver delivery)) ∧
      (genesis.number = 0 → c.blockCount < 2 ^ 64 → ∀ hash block,
        c.blocks.get? hash = some block → hash ≠ genesis.hash →
        ∃ parent, c.blocks.get? block.parentHash = some parent ∧
          block.number.toNat = parent.number.toNat + 1) := by
  have sound := ledger_history genesis config deliveries
  exact ⟨sound, fun delivery => (sound.deliver delivery).2,
    fun start countable hash block => sound.number_toNat start countable⟩

end BlockSync.Chain
