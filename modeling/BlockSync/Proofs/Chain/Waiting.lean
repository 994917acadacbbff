import BlockSync.Proofs.Chain.Ledger
import Mathlib.Data.List.Nodup
import Mathlib.Data.List.Perm.Subperm

/-! Pending storage. Waiting blocks are filed once each below their own parent hash,
they are counted, and between deliveries no parent of theirs is stored. While a drain
goes on, the hashes on its stack are excepted. No delivered block is lost track of: it
ends up stored, waiting, or below a stored parent with a number that does not follow.
A range is a run of offers that ends at the first block without room, so every history
is one of offers. -/
namespace BlockSync.Chain

def waiting (c : Chain) : List Block :=
  c.pending.values.flatten

/-- Pending storage in order, but for what waits below the hashes on a stack. -/
structure Waits (stack : List Hash) (c : Chain) : Prop where
  distinct : c.pending.Distinct
  filed : ∀ parent blocks, c.pending.get? parent = some blocks → ∀ block ∈ blocks,
    block.parentHash = parent
  no_twins : ∀ parent blocks, c.pending.get? parent = some blocks → (blocks.map Block.hash).Nodup
  counted : c.pendingCount = c.waiting.length
  bounded : c.pendingCount ≤ c.config.maxPendingBlocks
  orphaned : ∀ block ∈ c.waiting, c.blocks.get? block.parentHash = none ∨ block.parentHash ∈ stack

variable {genesis block parent : Block} {c d : Chain} {stack : List Hash} {hash : Hash}
variable {children : List Block}

theorem Waits.mem_waiting_iff (h : Waits stack c) :
    block ∈ c.waiting ↔
      ∃ blocks, c.pending.get? block.parentHash = some blocks ∧ block ∈ blocks := by
  constructor
  · intro member
    obtain ⟨blocks, listed, inside⟩ := List.mem_flatten.1 member
    obtain ⟨⟨parent, held⟩, entry, rfl⟩ := List.mem_map.1 listed
    have found := h.distinct.get?_of_mem entry
    rw [h.filed parent held found block inside]
    exact ⟨held, found, inside⟩
  · rintro ⟨blocks, found, inside⟩
    exact List.mem_flatten.2
      ⟨blocks, List.mem_map.2 ⟨_, Table.mem_entries_of_get? found, rfl⟩, inside⟩

theorem Waits.nodup (h : Waits stack c) : c.waiting.Nodup := by
  refine List.nodup_flatten.2 ⟨?_, ?_⟩
  · intro blocks listed
    obtain ⟨⟨parent, held⟩, entry, rfl⟩ := List.mem_map.1 listed
    exact (h.no_twins parent held (h.distinct.get?_of_mem entry)).of_map _
  · have apart : c.pending.entries.Pairwise (fun e f => e.1 ≠ f.1) := List.pairwise_map.1 h.distinct
    refine List.pairwise_map.2 (apart.imp_of_mem ?_)
    rintro ⟨parent, held⟩ ⟨other, more⟩ first second differ block left right
    apply differ
    rw [← h.filed parent held (h.distinct.get?_of_mem first) block left]
    exact h.filed other more (h.distinct.get?_of_mem second) block right

theorem Waits.waiting_release (h : Waits stack c) (found : c.pending.get? hash = some children) :
    c.waiting.Perm (children ++ (c.release hash children).waiting) :=
  ((h.distinct.perm_erase found).map Prod.snd).flatten

theorem Waits.pop (h : Waits (hash :: stack) c) (absent : c.pending.get? hash = none) :
    Waits stack c := by
  refine { h with orphaned := ?_ }
  intro block member
  rcases h.orphaned block member with orphan | listed
  · exact .inl orphan
  · rcases List.mem_cons.1 listed with same | inside
    · obtain ⟨blocks, found, -⟩ := h.mem_waiting_iff.1 member
      rw [same, absent] at found
      cases found
    · exact .inr inside

/-- A block that needs not wait: it is stored, or its number rules it out. -/
def Placed (c : Chain) (block : Block) : Prop :=
  (∃ other, c.blocks.get? block.hash = some other) ∨ c.Misnumbered block

/-- A delivered block that is accounted for. -/
def Settled (c : Chain) (block : Block) : Prop :=
  c.Placed block ∨ block ∈ c.waiting

theorem Extends.misnumbered (h : Extends c d) (wrong : c.Misnumbered block) :
    d.Misnumbered block := by
  obtain ⟨parent, stored, apart⟩ := wrong
  exact ⟨parent, h.blocks_kept _ _ stored, apart⟩

theorem Extends.placed (h : Extends c d) (placed : c.Placed block) : d.Placed block := by
  rcases placed with ⟨other, stored⟩ | wrong
  · exact .inl ⟨other, h.blocks_kept _ _ stored⟩
  · exact .inr (h.misnumbered wrong)

/-- Every block but the genesis block was handed in: it is among those that `handed` names. -/
structure Origin (genesis : Block) (handed : Block → Prop) (c : Chain) : Prop where
  stored : ∀ hash block, c.blocks.get? hash = some block → block = genesis ∨ handed block
  waiting : ∀ block ∈ c.waiting, handed block

theorem connectChild_cases (state : Chain × List Hash) (child : Block) :
    (connectChild state child = state ∧ (state.1.Placed child ∨
      state.1.totals.get? child.parentHash = none ∨ state.1.blocks.get? child.parentHash = none)) ∨
    ∃ parent total, state.1.Fits child parent total ∧
      connectChild state child =
        (state.1.attach child (total + child.header.difficulty), child.hash :: state.2) := by
  unfold connectChild
  dsimp only
  split
  · rename_i known
    exact .inl ⟨rfl, .inl (.inl (Table.contains_eq_true_iff.1 known))⟩
  · rename_i absent
    obtain ⟨none, missing⟩ | ⟨invalid, wrong⟩ |
      ⟨result, parent, total, fits, imported, connected⟩ :=
      connect_cases (get?_eq_none_of_not_contains absent)
    · rw [none]
      exact .inl ⟨rfl, .inr missing⟩
    · rw [invalid]
      exact .inl ⟨rfl, .inl (.inr wrong)⟩
    · rw [connected]
      simp only [imported, if_true]
      exact .inr ⟨parent, total, fits, rfl⟩

theorem foldl_connectChild_spec (c : Chain) (children : List Block) (pushed : List Hash) :
    let d := (children.foldl connectChild (c, pushed)).1
    d.pending = c.pending ∧ d.pendingCount = c.pendingCount ∧ d.config = c.config ∧
      ∃ stored, (children.foldl connectChild (c, pushed)).2 = stored ++ pushed ∧
        ∀ hash, d.blocks.get? hash = none ↔ c.blocks.get? hash = none ∧ hash ∉ stored := by
  induction children generalizing c pushed with
  | nil => exact ⟨rfl, rfl, rfl, [], rfl, by simp⟩
  | cons child rest ih =>
    rw [List.foldl_cons]
    rcases connectChild_cases (c, pushed) child with ⟨same, -⟩ | ⟨parent, total, fits, grown⟩
    · rw [same]
      exact ih c pushed
    · rw [grown]
      obtain ⟨pending, count, config, stored, notes, keys⟩ :=
        ih (c.attach child (total + child.header.difficulty)) (child.hash :: pushed)
      refine ⟨pending.trans (pending_attach _ _ _), count.trans (pendingCount_attach _ _ _),
        config.trans (config_attach _ _ _), stored ++ [child.hash], ?_, ?_⟩
      · rw [notes, List.append_assoc, List.singleton_append]
      · intro hash
        rw [keys, blocks_attach, Table.get?_insert]
        by_cases same : child.hash = hash
        · simp [same]
        · simp [same, Ne.symm same]

theorem stored_attach {total : Difficulty} {other : Block}
    (found : (c.attach block total).blocks.get? hash = some other) :
    other = block ∨ c.blocks.get? hash = some other := by
  rw [blocks_attach, Table.get?_insert] at found
  split at found
  · exact .inl (Option.some.inj found).symm
  · exact .inr found

theorem stored_foldl_connectChild {state : Chain × List Hash} {other : Block}
    (found : (children.foldl connectChild state).1.blocks.get? hash = some other) :
    state.1.blocks.get? hash = some other ∨ other ∈ children := by
  induction children generalizing state with
  | nil => exact .inl found
  | cons first rest ih =>
    rcases ih found with before | later
    · rcases connectChild_cases state first with ⟨same, -⟩ | ⟨parent, total, -, grown⟩
      · rw [same] at before
        exact .inl before
      · rw [grown] at before
        rcases stored_attach before with rfl | old
        · exact .inr List.mem_cons_self
        · exact .inl old
    · exact .inr (List.mem_cons_of_mem _ later)

theorem Ledger.placed_foldl_connectChild (h : Ledger genesis c) (pushed : List Hash)
    (below : ∀ child ∈ children, ∃ parent, c.blocks.get? child.parentHash = some parent) :
    ∀ child ∈ children, (children.foldl connectChild (c, pushed)).1.Placed child := by
  induction children generalizing c pushed with
  | nil => simp
  | cons first rest ih =>
    rw [List.foldl_cons]
    obtain ⟨sound, grown⟩ := h.steps (steps_connectChild (c, pushed) first)
    obtain ⟨-, later⟩ := sound.steps
      (steps_foldl_connectChild rest (connectChild (c, pushed) first))
    have placed : (connectChild (c, pushed) first).1.Placed first := by
      obtain ⟨parent, stored⟩ := below first List.mem_cons_self
      obtain ⟨total, recorded⟩ := h.total_of_stored stored
      rcases connectChild_cases (c, pushed) first with ⟨same, placed | missing | missing⟩ |
        ⟨parent, total, fits, attached⟩
      · rw [same]
        exact placed
      · rw [recorded] at missing
        cases missing
      · rw [stored] at missing
        cases missing
      · rw [attached]
        exact .inl ⟨first, get?_attach_self _ _ _⟩
    rintro child (_ | ⟨_, member⟩)
    · exact later.placed placed
    · exact ih sound _ (fun other inside => by
        obtain ⟨parent, stored⟩ := below other (List.mem_cons_of_mem _ inside)
        exact ⟨parent, grown.blocks_kept _ _ stored⟩) child member

theorem Waits.release (h : Waits (hash :: stack) c) (found : c.pending.get? hash = some children) :
    Waits (hash :: stack) (c.release hash children) := by
  have moved := h.waiting_release found
  have total := moved.length_eq
  rw [List.length_append] at total
  have still (parent : Hash) (blocks : List Block)
      (left : (c.pending.erase hash).get? parent = some blocks) :
      c.pending.get? parent = some blocks := by
    rw [Table.get?_erase] at left
    split at left
    · cases left
    · exact left
  refine
    { distinct := h.distinct.erase hash
      filed := fun parent blocks left => h.filed parent blocks (still parent blocks left)
      no_twins := fun parent blocks left => h.no_twins parent blocks (still parent blocks left)
      counted := ?_, bounded := ?_
      orphaned := ?_ }
  · change c.pendingCount - children.length = _
    rw [h.counted]
    omega
  · exact Nat.le_trans (Nat.sub_le _ _) h.bounded
  · intro block member
    apply h.orphaned
    exact moved.mem_iff.2 (List.mem_append_right _ member)

/-- A turn empties what waits below its hash, places every child there, and leaves the
hashes that it stored to be drained. It may take the children in any order. -/
theorem Waits.turn_of_perm (h : Waits (hash :: stack) c) (ledger : Ledger genesis c)
    (found : c.pending.get? hash = some children) {order : List Block} (same : order.Perm children)
    (stored : c.blocks.get? hash = some parent) :
    let next := c.turn hash order
    Waits (next.2 ++ stack) next.1 ∧ c.waiting.Perm (order ++ next.1.waiting) ∧
      (∀ child ∈ order, next.1.Placed child) ∧
      ∀ other ∈ next.2, ∃ block, next.1.blocks.get? other = some block := by
  have alike : c.release hash order = c.release hash children := by
    rw [Chain.release, Chain.release, same.length_eq]
  have released := h.release found
  have moved := (h.waiting_release found).trans (same.symm.append_right _)
  rw [← alike] at released moved
  have sound := (ledger.steps (steps_release c hash order)).1
  obtain ⟨pending, count, config, fresh, notes, keys⟩ :=
    foldl_connectChild_spec (c.release hash order) order []
  rw [List.append_nil] at notes
  have waits : (c.turn hash order).1.waiting = (c.release hash order).waiting :=
    congrArg (fun pending => pending.values.flatten) pending
  dsimp only
  rw [waits, show (c.turn hash order).2 = fresh from notes]
  refine ⟨?_, moved, ?_, ?_⟩
  · refine
      { distinct := by rw [Chain.turn, pending]; exact released.distinct
        filed := by rw [Chain.turn, pending]; exact released.filed
        no_twins := by rw [Chain.turn, pending]; exact released.no_twins
        counted := by rw [waits, Chain.turn, count]; exact released.counted
        bounded := by rw [Chain.turn, count, config]; exact released.bounded
        orphaned := ?_ }
    intro block member
    rw [waits] at member
    by_cases listed : block.parentHash ∈ fresh
    · exact .inr (List.mem_append_left _ listed)
    · rcases released.orphaned block member with orphan | inside
      · exact .inl ((keys _).2 ⟨orphan, listed⟩)
      · rcases List.mem_cons.1 inside with same | deeper
        · obtain ⟨blocks, left, -⟩ := released.mem_waiting_iff.1 member
          rw [same] at left
          exact absurd left (by simp [Chain.release, Table.get?_erase])
        · exact .inr (List.mem_append_right _ deeper)
  · refine sound.placed_foldl_connectChild [] fun child member => ⟨parent, ?_⟩
    rw [h.filed hash children found child (same.mem_iff.1 member)]
    exact stored
  · intro other member
    cases present : (c.turn hash order).1.blocks.get? other with
    | none => exact absurd member ((keys other).1 present).2
    | some block => exact ⟨block, rfl⟩

/-- A drain leaves no waiting block with a stored parent, settles what was settled and
stores only what waited. -/
theorem Waits.drain (h : Waits stack c) (ledger : Ledger genesis c)
    (stored : ∀ hash ∈ stack, ∃ block, c.blocks.get? hash = some block) :
    Waits [] (c.drain stack).2 ∧ (∀ block, c.Settled block → (c.drain stack).2.Settled block) ∧
      ∀ handed, Origin genesis handed c → Origin genesis handed (c.drain stack).2 := by
  revert h ledger stored
  apply drain_induction (motive := fun c stack d => Waits stack c → Ledger genesis c →
    (∀ hash ∈ stack, ∃ block, c.blocks.get? hash = some block) →
    Waits [] d ∧ (∀ block, c.Settled block → d.Settled block) ∧
      ∀ handed, Origin genesis handed c → Origin genesis handed d)
  · exact fun c h _ _ => ⟨h, fun _ settled => settled, fun _ origin => origin⟩
  · intro c hash stack d absent rest h ledger stored
    apply rest (h.pop absent) ledger
    intro other member
    exact stored other (List.mem_cons_of_mem _ member)
  · intro c hash stack children d found rest h ledger stored
    obtain ⟨parent, present⟩ := stored hash List.mem_cons_self
    obtain ⟨sound, grown⟩ := ledger.steps (steps_turn c hash children)
    obtain ⟨waits, moved, placed, noted⟩ := h.turn_of_perm ledger found (.refl _) present
    have due : ∀ other ∈ (c.turn hash children).2 ++ stack,
        ∃ block, (c.turn hash children).1.blocks.get? other = some block := by
      intro other member
      rcases List.mem_append.1 member with inside | deeper
      · exact noted other inside
      · obtain ⟨block, held⟩ := stored other (List.mem_cons_of_mem _ deeper)
        exact ⟨block, grown.blocks_kept _ _ held⟩
    obtain ⟨done, settled, handed⟩ := rest waits sound due
    refine ⟨done, ?_, ?_⟩
    · intro block before
      apply settled
      rcases before with before | waited
      · exact .inl (grown.placed before)
      · rcases List.mem_append.1 (moved.mem_iff.1 waited) with child | left
        · exact .inl (placed block child)
        · exact .inr left
    · intro named origin
      apply handed
      refine ⟨?_, fun block left =>
        origin.waiting block (moved.mem_iff.2 (List.mem_append_right _ left))⟩
      intro other block held
      rcases stored_foldl_connectChild held with old | child
      · exact origin.stored other block old
      · exact .inr (origin.waiting block (moved.mem_iff.2 (List.mem_append_left _ child)))

theorem waits_new (genesis : Block) (config : ChainConfig) : Waits [] (.new genesis config) where
  distinct := Table.distinct_empty
  filed parent blocks found := by simp [new] at found
  no_twins parent blocks found := by simp [new] at found
  counted := rfl
  bounded := Nat.zero_le _
  orphaned block member := by simp [new, waiting, Table.values, Table.empty] at member

def keep (c : Chain) (block : Block) : Chain :=
  { c with
    pending := c.pending.insert block.parentHash
      ((c.pending.get? block.parentHash).getD [] ++ [block])
    pendingCount := c.pendingCount + 1 }

theorem storePending_cases (c : Chain) (block : Block) :
    (c.config.maxPendingBlocks ≤ c.pendingCount ∧ c.storePending block = (false, c)) ∨
    (c.pendingCount < c.config.maxPendingBlocks ∧ c.storePending block = (true, c) ∧
      ∃ twin ∈ (c.pending.get? block.parentHash).getD [], twin.hash = block.hash) ∨
    (c.pendingCount < c.config.maxPendingBlocks ∧ c.storePending block = (true, c.keep block) ∧
      ∀ sibling ∈ (c.pending.get? block.parentHash).getD [], sibling.hash ≠ block.hash) := by
  unfold storePending
  dsimp only
  split
  · rename_i full
    exact .inl ⟨full, rfl⟩
  · rename_i room
    split
    · rename_i twin
      exact .inr (.inl ⟨by omega, rfl, by simpa using twin⟩)
    · rename_i single
      exact .inr (.inr ⟨by omega, rfl, by simpa using single⟩)

/-- A block that is stored, or whose parent is not, connects nothing. -/
theorem Ledger.blocks_offer_of_idle (h : Ledger genesis c)
    (idle : (∃ other, c.blocks.get? block.hash = some other) ∨
      c.blocks.get? block.parentHash = none) :
    (c.offer block).2.blocks = c.blocks := by
  obtain ⟨known, same⟩ | ⟨orphan, result, -, kept⟩ | ⟨wrong, same⟩ |
    ⟨result, parent, total, fits, -, connected⟩ := h.offer_cases block
  · rw [same]
  · rw [kept]
    rcases storePending_cases c block with ⟨-, same⟩ | ⟨-, same, -⟩ | ⟨-, same, -⟩ <;> rw [same]
    rfl
  · rw [same]
  · rcases idle with ⟨other, stored⟩ | absent
    · rw [fits.fresh] at stored
      cases stored
    · rw [fits.parent_stored] at absent
      cases absent

theorem offer_of_stored {other : Block} (stored : c.blocks.get? block.hash = some other) :
    c.offer block = (.alreadyKnown, c) := by
  have known : c.blocks.contains block.hash = true := Table.contains_eq_true_iff.2 ⟨other, stored⟩
  rw [offer, if_pos known]

theorem Ledger.offer_of_misnumbered (h : Ledger genesis c)
    (fresh : c.blocks.get? block.hash = none)
    (stored : c.blocks.get? block.parentHash = some parent) (wrong : block.number ≠ parent.number + 1) :
    c.offer block = (.invalid, c) := by
  obtain ⟨⟨other, known⟩, -⟩ | ⟨orphan, -⟩ | ⟨-, refused⟩ |
    ⟨result, above, total, fits, -, -⟩ := h.offer_cases block
  · rw [fresh] at known
    cases known
  · rw [stored] at orphan
    cases orphan
  · exact refused
  · have same := fits.parent_stored
    rw [stored, Option.some.injEq] at same
    exact absurd (same ▸ fits.number) wrong

theorem Ledger.offer_of_orphan (h : Ledger genesis c) (fresh : c.blocks.get? block.hash = none)
    (orphan : c.blocks.get? block.parentHash = none) :
    c.offer block =
      (if c.pendingCount < c.config.maxPendingBlocks then .storedForLater else .noParent,
        (c.storePending block).2) := by
  have absent : ¬ c.blocks.contains block.hash = true := by
    simp [Table.contains, fresh]
  have refused : c.connect block = none := by
    rw [connect, h.total_eq_none_iff.2 orphan]
  rw [offer, if_neg absent, refused]
  dsimp only
  obtain ⟨full, kept⟩ | ⟨room, kept, -⟩ | ⟨room, kept, -⟩ := storePending_cases c block
  · rw [kept, if_neg (Nat.not_lt.2 full)]
  · rw [kept, if_pos room]
  · rw [kept, if_pos room]

/-- Only a block that is not stored and has no stored parent is kept or finds no room. -/
theorem Ledger.orphan_of_unconnected (h : Ledger genesis c)
    (said : (c.offer block).1 = .storedForLater ∨ (c.offer block).1 = .noParent) :
    c.blocks.get? block.hash = none ∧ c.blocks.get? block.parentHash = none := by
  cases fresh : c.blocks.get? block.hash with
  | some other => simp [offer_of_stored fresh] at said
  | none =>
    refine ⟨rfl, ?_⟩
    obtain ⟨-, same⟩ | ⟨orphan, -⟩ | ⟨-, same⟩ | ⟨result, parent, total, -, imported, connected⟩ :=
      h.offer_cases block
    · simp [same] at said
    · exact orphan
    · simp [same] at said
    · rw [connected] at said
      rcases said with rfl | rfl <;> cases imported

theorem Ledger.full_of_noParent (h : Ledger genesis c) (said : (c.offer block).1 = .noParent) :
    c.config.maxPendingBlocks ≤ c.pendingCount := by
  obtain ⟨fresh, orphan⟩ := h.orphan_of_unconnected (.inr said)
  rw [h.offer_of_orphan fresh orphan] at said
  by_contra room
  simp [Nat.not_le.1 room] at said

@[simp] theorem storeRange_nil (c : Chain) : c.storeRange [] = (0, c) :=
  rfl

/-- A range offers its first block. If that finds no room the range ends there. Otherwise the
others follow, and the first is counted if it was kept for later. -/
theorem Ledger.storeRange_cons (h : Ledger genesis c) (first : Block) (rest : List Block) :
    c.storeRange (first :: rest) =
      if (c.offer first).1 = .noParent then (0, c)
      else
        let later := (c.offer first).2.storeRange rest
        (later.1 + if (c.offer first).1 = .storedForLater then 1 else 0, later.2) := by
  cases known : c.blocks.get? first.hash with
  | some other =>
    have held : c.blocks.contains first.hash = true := Table.contains_eq_true_iff.2 ⟨other, known⟩
    simp [storeRange, held, offer_of_stored known]
  | none =>
    have fresh : c.blocks.contains first.hash = false := Table.contains_eq_false_iff.2 known
    cases stored : c.blocks.get? first.parentHash with
    | none =>
      have orphan : c.totals.contains first.parentHash = false :=
        Table.contains_eq_false_iff.2 (h.total_eq_none_iff.2 stored)
      rw [h.offer_of_orphan known stored]
      obtain ⟨full, kept⟩ | ⟨room, kept, -⟩ | ⟨room, kept, -⟩ := storePending_cases c first
      · simp [storeRange, fresh, orphan, kept, Nat.not_lt.2 full]
      · simp [storeRange, fresh, orphan, kept, room]
      · simp [storeRange, fresh, orphan, kept, room]
    | some parent =>
      obtain ⟨total, recorded⟩ := h.total_of_stored stored
      have below : c.totals.contains first.parentHash = true :=
        Table.contains_eq_true_iff.2 ⟨total, recorded⟩
      obtain ⟨-, missing | missing⟩ | ⟨invalid, -⟩ | ⟨result, above, sum, -, imported, connected⟩ :=
        connect_cases known
      · rw [recorded] at missing
        cases missing
      · rw [stored] at missing
        cases missing
      · simp [storeRange, Chain.offer, fresh, below, invalid, ImportResult.isImported]
      · have apart : result ≠ .noParent ∧ result ≠ .storedForLater := by
          cases result <;> simp [ImportResult.isImported] at imported ⊢
        simp [storeRange, Chain.offer, fresh, below, connected, imported, apart]

theorem Waits.siblings (h : Waits stack c) (parent : Hash) :
    ∀ sibling ∈ (c.pending.get? parent).getD [],
      sibling.parentHash = parent ∧ sibling ∈ c.waiting := by
  intro sibling member
  cases found : c.pending.get? parent with
  | none => simp [found] at member
  | some blocks =>
    rw [found, Option.getD_some] at member
    have own := h.filed parent blocks found sibling member
    exact ⟨own, h.mem_waiting_iff.2 ⟨blocks, own.symm ▸ found, member⟩⟩

theorem Waits.waiting_keep (h : Waits stack c) (block : Block) :
    (c.keep block).waiting.Perm (block :: c.waiting) := by
  have first : (c.keep block).waiting =
      ((c.pending.get? block.parentHash).getD [] ++ [block]) ++
        (c.pending.erase block.parentHash).values.flatten := rfl
  have rest : c.waiting.Perm ((c.pending.get? block.parentHash).getD [] ++
      (c.pending.erase block.parentHash).values.flatten) := by
    cases found : c.pending.get? block.parentHash with
    | none =>
      rw [Table.erase_of_absent found]
      exact List.Perm.refl _
    | some blocks => exact h.waiting_release found
  rw [first, List.append_assoc, List.singleton_append]
  exact List.perm_middle.trans (rest.symm.cons block)

theorem Waits.keep (h : Waits [] c) (orphan : c.blocks.get? block.parentHash = none)
    (room : c.pendingCount < c.config.maxPendingBlocks)
    (single : ∀ sibling ∈ (c.pending.get? block.parentHash).getD [], sibling.hash ≠ block.hash) :
    Waits [] (c.keep block) where
  distinct := h.distinct.insert _ _
  filed parent blocks found := by
    rw [Chain.keep, Table.get?_insert] at found
    split at found
    · rename_i same
      cases found
      intro other member
      rcases List.mem_append.1 member with old | new
      · rw [← same]
        exact (h.siblings _ other old).1
      · rw [List.mem_singleton.1 new, same]
    · exact h.filed parent blocks found
  no_twins parent blocks found := by
    rw [Chain.keep, Table.get?_insert] at found
    split at found
    · cases found
      rw [List.map_append, List.map_singleton]
      refine List.nodup_append.2 ⟨?_, List.nodup_singleton _, ?_⟩
      · cases old : c.pending.get? block.parentHash with
        | none => exact List.nodup_nil
        | some siblings => exact h.no_twins _ siblings old
      · intro hash listed other new
        obtain ⟨sibling, member, rfl⟩ := List.mem_map.1 listed
        rw [List.mem_singleton.1 new]
        exact single sibling member
    · exact h.no_twins parent blocks found
  counted := by
    rw [(h.waiting_keep block).length_eq, List.length_cons, ← h.counted]
    rfl
  bounded := room
  orphaned other member := by
    rcases List.mem_cons.1 ((h.waiting_keep block).mem_iff.1 member) with rfl | old
    · exact .inl orphan
    · exact h.orphaned other old

/-- A block is accounted for, or a block with its hash waits. -/
def Taken (c : Chain) (block : Block) : Prop :=
  c.Placed block ∨ ∃ twin ∈ c.waiting, twin.hash = block.hash

/-- What an offer leaves behind: pending storage in order, nothing forgotten, nothing
that was not handed in, and the block taken in unless there was no room for it. -/
structure Offered (genesis : Block) (c : Chain) (block : Block) (d : Chain) : Prop where
  waits : Waits [] d
  settled : ∀ other, c.Settled other → d.Settled other
  origin : ∀ handed, Origin genesis handed c → handed block → Origin genesis handed d
  taken : d.Taken block ∨ c.config.maxPendingBlocks ≤ c.pendingCount ∧ d = c

theorem Waits.storePending (h : Waits [] c) (orphan : c.blocks.get? block.parentHash = none) :
    Offered genesis c block (c.storePending block).2 := by
  rcases storePending_cases c block with ⟨full, result⟩ | ⟨-, result, twin, member, same⟩ |
    ⟨room, result, single⟩
  · rw [result]
    exact ⟨h, fun _ settled => settled, fun _ origin _ => origin, .inr ⟨full, rfl⟩⟩
  · rw [result]
    exact ⟨h, fun _ settled => settled, fun _ origin _ => origin,
      .inl (.inr ⟨twin, (h.siblings _ twin member).2, same⟩)⟩
  · rw [result]
    have moved := h.waiting_keep block
    refine ⟨h.keep orphan room single, ?_, ?_,
      .inl (.inr ⟨block, moved.mem_iff.2 List.mem_cons_self, rfl⟩)⟩
    · intro other settled
      rcases settled with placed | waits
      · exact .inl placed
      · exact .inr (moved.mem_iff.2 (List.mem_cons_of_mem _ waits))
    · intro handed origin new
      refine ⟨origin.stored, ?_⟩
      intro other member
      rcases List.mem_cons.1 (moved.mem_iff.1 member) with rfl | old
      · exact new
      · exact origin.waiting other old

theorem Waits.attach (h : Waits [] c) (weight : Difficulty) :
    Waits [block.hash] (c.attach block weight) where
  distinct := by rw [pending_attach]; exact h.distinct
  filed := by rw [pending_attach]; exact h.filed
  no_twins := by rw [pending_attach]; exact h.no_twins
  counted := by rw [pendingCount_attach, waiting, pending_attach]; exact h.counted
  bounded := by rw [pendingCount_attach, config_attach]; exact h.bounded
  orphaned other member := by
    rw [waiting, pending_attach] at member
    rw [blocks_attach, Table.get?_insert]
    split
    · rename_i same
      exact .inr (List.mem_singleton.2 same.symm)
    · exact .inl ((h.orphaned other member).resolve_right List.not_mem_nil)

theorem Waits.offer (h : Waits [] c) (ledger : Ledger genesis c) (block : Block) :
    Offered genesis c block (c.offer block).2 := by
  obtain ⟨known, same⟩ | ⟨orphan, result, -, kept⟩ | ⟨wrong, same⟩ |
    ⟨result, parent, total, fits, -, connected⟩ := ledger.offer_cases block
  · rw [same]
    exact ⟨h, fun _ settled => settled, fun _ origin _ => origin, .inl (.inl (.inl known))⟩
  · rw [kept]
    exact h.storePending orphan
  · rw [same]
    exact ⟨h, fun _ settled => settled, fun _ origin _ => origin, .inl (.inl (.inr wrong))⟩
  · rw [connected]
    have sound := ledger.attach fits
    have grown := ledger.extends_attach fits.fresh (total + block.header.difficulty)
    have stored := get?_attach_self c block (total + block.header.difficulty)
    have attached : Waits [block.hash] (c.attach block (total + block.header.difficulty)) :=
      h.attach _
    obtain ⟨waits, settled, origin⟩ := attached.drain sound
      (fun hash listed => ⟨block, List.mem_singleton.1 listed ▸ stored⟩)
    have drained := (sound.steps (steps_drain _ [block.hash])).2
    refine ⟨waits, ?_, ?_, .inl (.inl (drained.placed (.inl ⟨block, stored⟩)))⟩
    · intro other before
      apply settled
      rcases before with placed | waited
      · exact .inl (grown.placed placed)
      · exact .inr (by rw [waiting, pending_attach]; exact waited)
    · intro handed before new
      apply origin
      refine ⟨?_, fun other member => before.waiting other ?_⟩
      · intro hash other held
        rcases stored_attach held with rfl | old
        · exact .inr new
        · exact before.stored hash other old
      · rw [waiting, pending_attach] at member
        exact member

/-- Each block is taken in when its turn to be offered comes. -/
def Admits (c : Chain) : List Block → Prop
  | [] => True
  | block :: rest => (c.offer block).2.Taken block ∧ Admits (c.offer block).2 rest

/-- A block that finds room is taken in. -/
theorem Waits.taken_of_offer (h : Waits [] c) (ledger : Ledger genesis c)
    (room : (c.offer block).1 ≠ .noParent) : (c.offer block).2.Taken block := by
  obtain ⟨known, same⟩ | ⟨orphan, -⟩ | ⟨wrong, same⟩ |
    ⟨result, parent, total, -, imported, connected⟩ := ledger.offer_cases block
  · rw [same]
    exact .inl (.inl known)
  · cases fresh : c.blocks.get? block.hash with
    | some other =>
      rw [offer_of_stored fresh]
      exact .inl (.inl ⟨other, fresh⟩)
    | none =>
      refine (h.offer ledger block).taken.resolve_right fun full => room ?_
      rw [ledger.offer_of_orphan fresh orphan, if_neg (Nat.not_lt.2 full.1)]
  · rw [same]
    exact .inl (.inr wrong)
  · exact .inl (.inl (ledger.stored_of_offer block (.inl (by rw [connected]; exact imported))))

/-- A range offers its blocks one by one, takes them in, and ends early only when there is no
more room. -/
theorem Waits.storeRange_eq_offerAll (h : Waits [] c) (ledger : Ledger genesis c)
    (blocks : List Block) :
    ∃ front back, blocks = front ++ back ∧ (c.storeRange blocks).2 = c.offerAll front ∧
      c.Admits front ∧
      (back = [] ∨ c.config.maxPendingBlocks ≤ (c.storeRange blocks).2.pendingCount) := by
  induction blocks generalizing c with
  | nil => exact ⟨[], [], rfl, rfl, trivial, .inl rfl⟩
  | cons first rest ih =>
    have range := ledger.storeRange_cons first rest
    by_cases room : (c.offer first).1 = .noParent
    · rw [if_pos room] at range
      refine ⟨[], first :: rest, rfl, by rw [range]; rfl, trivial, .inr ?_⟩
      rw [range]
      exact ledger.full_of_noParent room
    · rw [if_neg room] at range
      have steps := steps_offer c first
      obtain ⟨front, back, split, result, admits, stop⟩ :=
        ih (h.offer ledger first).waits (ledger.steps steps).1
      refine ⟨first :: front, back, by rw [split, List.cons_append], ?_,
        ⟨h.taken_of_offer ledger room, admits⟩, ?_⟩
      · rw [range]
        exact result
      · rw [range]
        rwa [steps.config_eq] at stop

theorem origin_new (genesis : Block) (config : ChainConfig) (handed : Block → Prop) :
    Origin genesis handed (.new genesis config) where
  stored hash block stored := by
    rw [blocks_new] at stored
    split at stored <;> cases stored
    exact .inl rfl
  waiting block member := by simp [new, waiting, Table.values, Table.empty] at member

/-- What a run of offers leaves behind: pending storage in order, nothing forgotten, and
nothing new but what was handed in. The genesis block's hash is known from the start. -/
structure Intact (genesis : Block) (c : Chain) (blocks : List Block) (d : Chain) : Prop where
  waits : Waits [] d
  settled : ∀ other, c.Settled other → d.Settled other
  origin : ∀ handed, Origin genesis handed c →
    (∀ block ∈ blocks, block.hash ≠ genesis.hash → handed block) → Origin genesis handed d

theorem Waits.intact (h : Waits [] c) (blocks : List Block) : Intact genesis c blocks c :=
  ⟨h, fun _ settled => settled, fun _ origin _ => origin⟩

theorem Intact.trans {e : Chain} {blocks more all : List Block} (h : Intact genesis c blocks d)
    (k : Intact genesis d more e) (left : blocks ⊆ all) (right : more ⊆ all) :
    Intact genesis c all e where
  waits := k.waits
  settled other before := k.settled other (h.settled other before)
  origin handed before members := by
    apply k.origin handed (h.origin handed before ?_)
    · intro block inside
      exact members block (right inside)
    · intro block inside
      exact members block (left inside)

theorem Waits.intact_offer (h : Waits [] c) (ledger : Ledger genesis c) (block : Block) :
    Intact genesis c [block] (c.offer block).2 := by
  by_cases same : block.hash = genesis.hash
  · have stored := ledger.genesis_stored
    rw [← same] at stored
    rw [offer_of_stored stored]
    exact h.intact [block]
  · have offered := h.offer ledger block
    refine ⟨offered.waits, offered.settled, ?_⟩
    intro handed origin members
    exact offered.origin handed origin (members block List.mem_cons_self same)

theorem Waits.offerAll (h : Waits [] c) (ledger : Ledger genesis c) (blocks : List Block) :
    Intact genesis c blocks (c.offerAll blocks) := by
  induction blocks generalizing c with
  | nil => exact h.intact []
  | cons first rest ih =>
    have offered := h.intact_offer ledger first
    have later := ih offered.waits (ledger.steps (steps_offer c first)).1
    exact offered.trans later (by simp) (List.subset_cons_self first rest)

theorem Waits.deliver (h : Waits [] c) (ledger : Ledger genesis c) (delivery : Delivery) :
    Intact genesis c delivery.blocks (c.deliver delivery) := by
  cases delivery with
  | block first => exact h.intact_offer ledger first
  | range blocks =>
    obtain ⟨front, back, split, result, -⟩ := h.storeRange_eq_offerAll ledger blocks
    change Intact genesis c blocks (c.storeRange blocks).2
    rw [result, split]
    exact (h.intact []).trans (h.offerAll ledger front) (by simp) (by simp)

theorem Waits.foldl_deliver (h : Waits [] c) (ledger : Ledger genesis c)
    (deliveries : List Delivery) :
    Intact genesis c (deliveries.flatMap Delivery.blocks) (deliveries.foldl Chain.deliver c) := by
  induction deliveries generalizing c with
  | nil => exact h.intact []
  | cons first rest ih =>
    have delivered := h.deliver ledger first
    have later := ih delivered.waits (ledger.deliver first).1
    rw [List.flatMap_cons]
    exact delivered.trans later (List.subset_append_left _ _) (List.subset_append_right _ _)

theorem intact_history (genesis : Block) (config : ChainConfig) (deliveries : List Delivery) :
    Intact genesis (.new genesis config) (deliveries.flatMap Delivery.blocks)
      (history genesis config deliveries) :=
  (waits_new genesis config).foldl_deliver (ledger_new genesis config) deliveries

/-- In every state that deliveries lead to pending storage is in order, and every block
but the genesis block came with a delivery. -/
theorem waits_history (genesis : Block) (config : ChainConfig) (deliveries : List Delivery) :
    Waits [] (history genesis config deliveries) ∧
      Origin genesis (fun block => ∃ delivery ∈ deliveries, block ∈ delivery.blocks)
        (history genesis config deliveries) := by
  have intact := intact_history genesis config deliveries
  refine ⟨intact.waits, intact.origin _ (origin_new genesis config _) ?_⟩
  intro block member _
  exact List.mem_flatMap.1 member

theorem Steps.distinct (steps : Steps c d) (h : c.blocks.Distinct) : d.blocks.Distinct := by
  induction steps with
  | refl => exact h
  | tail _ step ih =>
    cases step with
    | attach => rw [blocks_attach]; exact ih.insert _ _
    | pending => exact ih

/-- No more blocks are stored than were handed in, besides the genesis block. -/
theorem blockCount_history_le (genesis : Block) (config : ChainConfig)
    (deliveries : List Delivery) :
    (history genesis config deliveries).blockCount ≤
      (deliveries.flatMap Delivery.blocks).length + 1 := by
  have steps := steps_history genesis config deliveries
  have origin := (waits_history genesis config deliveries).2
  have ledger := ledger_history genesis config deliveries
  generalize history genesis config deliveries = c at steps origin ledger
  have distinct : c.blocks.Distinct := steps.distinct (Table.distinct_empty.insert _ _)
  have keys : c.blocks.values.map Block.hash = c.blocks.entries.map (·.1) := by
    rw [Table.values, List.map_map]
    refine List.map_congr_left ?_
    rintro ⟨hash, block⟩ listed
    exact ledger.own_hash _ _ (distinct.get?_of_mem listed)
  have once : c.blocks.values.Nodup := List.Nodup.of_map Block.hash (keys ▸ distinct)
  have handed : c.blocks.values ⊆ genesis :: deliveries.flatMap Delivery.blocks := by
    intro block listed
    obtain ⟨⟨hash, _⟩, entry, rfl⟩ := List.mem_map.1 listed
    rcases origin.stored hash _ (distinct.get?_of_mem entry) with rfl | came
    · exact List.mem_cons_self
    · exact List.mem_cons_of_mem _ (List.mem_flatMap.2 came)
  have bound := (once.subperm handed).length_le
  rwa [Table.values, List.length_map, List.length_cons] at bound

end BlockSync.Chain
