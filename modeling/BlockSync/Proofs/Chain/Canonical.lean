import BlockSync.Proofs.Chain.Waiting

/-! The canonical index. Whatever fork the best block moves to, shorter or longer, the
index holds exactly the way from the genesis block up to it. Rewriting stops at the
first entry that is already right, which is enough because below such an entry the
index was linked before; a hash that fills a gap is that of no block. Heights are
exact only while a table of blocks can be counted in 64 bits. -/
namespace BlockSync.Chain

/-- Up to a height, each entry of the index is the parent hash of the block above it. -/
def Linked (blocks : Table Hash Block) (index : Array Hash) (top : Nat) : Prop :=
  ∀ height < top, ∃ hash block, index[height + 1]? = some hash ∧ blocks.get? hash = some block ∧
    index[height]? = some block.parentHash

theorem Linked.mono {blocks : Table Hash Block} {index : Array Hash} {low top : Nat}
    (h : Linked blocks index top) (below : low ≤ top) : Linked blocks index low :=
  fun height bound => h height (by omega)

theorem Linked.congr {blocks more : Table Hash Block} {index other : Array Hash} {top : Nat}
    (h : Linked blocks index top) (same : ∀ height ≤ top, other[height]? = index[height]?)
    (kept : ∀ hash block, blocks.get? hash = some block → more.get? hash = some block) :
    Linked more other top := by
  intro height bound
  obtain ⟨hash, block, upper, stored, lower⟩ := h height bound
  refine ⟨hash, block, ?_, kept _ _ stored, ?_⟩
  · rw [same _ (by omega), upper]
  · rw [same _ (by omega), lower]

/-- Blocks above number zero have a stored parent whose number is one less. -/
def Numbered (blocks : Table Hash Block) : Prop :=
  ∀ hash block, blocks.get? hash = some block → 0 < block.number.toNat →
    ∃ parent, blocks.get? block.parentHash = some parent ∧
      block.number.toNat = parent.number.toNat + 1

@[simp] theorem size_relink (blocks : Table Hash Block) (height : Nat) (cursor : Hash)
    (index : Array Hash) : (relink blocks height cursor index).size = index.size := by
  induction height generalizing cursor index with
  | zero =>
    rw [relink]
    split <;> simp
  | succ below ih =>
    rw [relink]
    split
    · rfl
    · dsimp only
      split
      · rw [ih, Array.size_setIfInBounds]
      · exact Array.size_setIfInBounds

theorem getElem?_relink_above (blocks : Table Hash Block) (height : Nat) (cursor : Hash)
    (index : Array Hash) {place : Nat} (above : height < place) :
    (relink blocks height cursor index)[place]? = index[place]? := by
  induction height generalizing cursor index with
  | zero =>
    rw [relink]
    split
    · rfl
    · exact Array.getElem?_setIfInBounds_ne (by omega)
  | succ below ih =>
    rw [relink]
    split
    · rfl
    · dsimp only
      split
      · rw [ih _ _ (by omega), Array.getElem?_setIfInBounds_ne (by omega)]
      · exact Array.getElem?_setIfInBounds_ne (by omega)

/-- Rewriting leads from a stored block all the way down, provided that the index was
linked below each entry that names a block. -/
theorem linked_relink {blocks : Table Hash Block} (numbered : Numbered blocks) (height : Nat)
    {cursor : Hash} {index : Array Hash} {block : Block} (stored : blocks.get? cursor = some block)
    (number : block.number.toNat = height) (room : height < index.size)
    (before : ∀ place ≤ height, ∀ hash other, index[place]? = some hash →
      blocks.get? hash = some other → Linked blocks index place) :
    (relink blocks height cursor index)[height]? = some cursor ∧
      Linked blocks (relink blocks height cursor index) height := by
  -- on the height; one entry is written, so all that was linked below it still is
  induction height generalizing cursor index block with
  | zero =>
    rw [relink]
    split
    · rename_i right
      exact ⟨right, before 0 (Nat.le_refl 0) cursor block right stored⟩
    · exact ⟨Array.getElem?_setIfInBounds_self_of_lt room, fun _ bound => by omega⟩
  | succ below ih =>
    rw [relink]
    split
    · rename_i right
      exact ⟨right, before _ (Nat.le_refl _) cursor block right stored⟩
    · simp only [stored]
      obtain ⟨parent, hparent, follows⟩ := numbered cursor block stored (by omega)
      have untouched (place : Nat) (bound : place ≤ below) :
          (index.setIfInBounds (below + 1) cursor)[place]? = index[place]? :=
        Array.getElem?_setIfInBounds_ne (by omega)
      have linked_before : ∀ place ≤ below, ∀ hash other,
          (index.setIfInBounds (below + 1) cursor)[place]? = some hash →
          blocks.get? hash = some other →
          Linked blocks (index.setIfInBounds (below + 1) cursor) place := by
        intro place bound hash other named found
        rw [untouched place bound] at named
        have old := before place (by omega) hash other named found
        exact old.congr (fun low _ => untouched low (by omega)) (fun _ _ h => h)
      obtain ⟨entry, linked⟩ := ih hparent (by omega) (by rw [Array.size_setIfInBounds]; omega)
        linked_before
      have top : (relink blocks below block.parentHash
          (index.setIfInBounds (below + 1) cursor))[below + 1]? = some cursor := by
        rw [getElem?_relink_above _ _ _ _ (Nat.lt_succ_self below)]
        exact Array.getElem?_setIfInBounds_self_of_lt room
      refine ⟨top, ?_⟩
      intro low bound
      rcases Nat.lt_succ_iff_lt_or_eq.1 bound with inside | rfl
      · exact linked low inside
      · exact ⟨cursor, block, top, stored, entry⟩

@[simp] theorem size_resize (index : Array Hash) (length : Nat) :
    (resize index length).size = length := by
  unfold resize
  split
  · simp only [Array.size_extract]
    omega
  · simp only [Array.size_append, Array.size_replicate]
    omega

theorem getElem?_resize {index : Array Hash} {length place : Nat} {hash : Hash}
    (h : (resize index length)[place]? = some hash) : index[place]? = some hash ∨ hash = .zero := by
  unfold resize at h
  split at h
  · left
    rw [Array.getElem?_extract] at h
    split at h
    · simpa using h
    · cases h
  · rw [Array.getElem?_append] at h
    split at h
    · exact .inl h
    · rw [Array.getElem?_replicate] at h
      split at h
      · exact .inr (Option.some.inj h).symm
      · cases h

theorem getElem?_resize_of_lt {index : Array Hash} {length place : Nat}
    (inside : place < index.size) (bound : place < length) :
    (resize index length)[place]? = index[place]? := by
  unfold resize
  split
  · rw [Array.getElem?_extract]
    simp only [Nat.sub_zero, Nat.zero_add]
    rw [if_pos (by omega)]
  · rw [Array.getElem?_append, if_pos inside]

/-- The index as one way down from the best block. -/
structure Path (c : Chain) : Prop where
  size : c.canonical.size = c.bestNumber.toNat + 1
  last : c.canonical[c.bestNumber.toNat]? = some c.best
  linked : Linked c.blocks c.canonical c.bestNumber.toNat

variable {genesis block parent : Block} {c d : Chain} {total : Difficulty}

theorem bestNumber_eq (stored : c.blocks.get? c.best = some block) :
    c.bestNumber = block.number := by
  rw [bestNumber, bestHeader, stored]
  rfl

theorem Ledger.best_block (h : Ledger genesis c) :
    ∃ block, c.blocks.get? c.best = some block ∧ c.bestNumber = block.number := by
  obtain ⟨block, stored⟩ := h.stored_of_total h.best_total
  exact ⟨block, stored, bestNumber_eq stored⟩

theorem Ledger.bestNumber_lt (h : Ledger genesis c) (start : genesis.number = 0)
    (countable : c.blockCount < 2 ^ 64) : c.bestNumber.toNat + 1 < 2 ^ 64 := by
  obtain ⟨block, stored, number⟩ := h.best_block
  have below := h.number_lt _ _ stored
  rw [start, UInt64.toNat_zero] at below
  rw [number]
  omega

theorem Ledger.numbered (h : Ledger genesis c) (start : genesis.number = 0)
    (countable : c.blockCount < 2 ^ 64) : Numbered c.blocks := by
  intro hash block stored positive
  refine h.number_toNat start countable stored ?_
  rintro rfl
  rw [h.genesis_stored] at stored
  cases stored
  rw [start] at positive
  exact absurd positive (Nat.lt_irrefl 0)

theorem Ledger.canonical_attach (h : Ledger genesis c) (fresh : c.blocks.get? block.hash = none)
    (total : Difficulty) :
    (c.attach block total).canonical =
      if c.total < total then
        relink (c.attach block total).blocks block.number.toNat block.hash
          (resize c.canonical (block.number.toNat + 1))
      else c.canonical := by
  rw [blocks_attach, Chain.attach, h.total_grow fresh]
  split <;> rfl

theorem path_new (genesis : Block) (config : ChainConfig) (start : genesis.number = 0) :
    Path (.new genesis config) := by
  have number : (new genesis config).bestNumber = 0 := by
    rw [bestNumber_eq ((blocks_new genesis config _).trans (if_pos rfl)), start]
  refine ⟨?_, ?_, ?_⟩
  · rw [number]
    rfl
  · rw [number]
    rfl
  · rw [number]
    exact fun height bound => absurd bound (Nat.not_lt_zero height)

theorem Path.attach (h : Path c) (ledger : Ledger genesis c) (start : genesis.number = 0)
    (fits : c.Fits block parent total)
    (countable : (c.attach block (total + block.header.difficulty)).blockCount < 2 ^ 64)
    (nonzero : (c.attach block (total + block.header.difficulty)).blocks.get? .zero = none) :
    Path (c.attach block (total + block.header.difficulty)) := by
  have grown := ledger.extends_attach fits.fresh (total + block.header.difficulty)
  have sound := ledger.attach fits
  have index := ledger.canonical_attach fits.fresh (total + block.header.difficulty)
  have best := ledger.best_attach fits.fresh (total + block.header.difficulty)
  by_cases heavier : c.total < total + block.header.difficulty
  · rw [if_pos heavier] at index best
    have stored := get?_attach_self c block (total + block.header.difficulty)
    have number := bestNumber_eq (best.symm ▸ stored)
    have before : ∀ place ≤ block.number.toNat, ∀ hash other,
        (resize c.canonical (block.number.toNat + 1))[place]? = some hash →
        (c.attach block (total + block.header.difficulty)).blocks.get? hash = some other →
        Linked (c.attach block (total + block.header.difficulty)).blocks
          (resize c.canonical (block.number.toNat + 1)) place := by
      intro place bound hash other named found
      -- an entry that names a block is an old one: where the index grew it names no block
      rcases getElem?_resize named with old | rfl
      · have inside := (Array.getElem?_eq_some_iff.1 old).1
        have reach : place ≤ c.bestNumber.toNat := by
          have size := h.size
          omega
        exact (h.linked.mono reach).congr
          (fun low _ => getElem?_resize_of_lt (by omega) (by omega)) grown.blocks_kept
      · rw [nonzero] at found
        cases found
    obtain ⟨top, linked⟩ := linked_relink (sound.numbered start countable) block.number.toNat
      stored rfl (by simp) before
    exact ⟨by rw [index, number, size_relink, size_resize], by rw [index, number, best, top],
      by rw [index, number]; exact linked⟩
  · rw [if_neg heavier] at index best
    obtain ⟨tip, stored, number⟩ := ledger.best_block
    have same : (c.attach block (total + block.header.difficulty)).bestNumber = c.bestNumber := by
      rw [number]
      exact bestNumber_eq (by rw [best, grown.blocks_kept _ _ stored])
    exact ⟨by rw [index, same, h.size], by rw [index, same, best, h.last],
      by rw [index, same]; exact h.linked.congr (fun _ _ => rfl) grown.blocks_kept⟩

theorem Step.blockCount_le (step : Step c d) : c.blockCount ≤ d.blockCount := by
  cases step with
  | attach fits => rw [blockCount_attach fits]; exact Nat.le_succ _
  | pending => exact Nat.le_refl _

theorem Extends.absent (h : Extends c d) {hash : Hash} (absent : d.blocks.get? hash = none) :
    c.blocks.get? hash = none := by
  cases found : c.blocks.get? hash with
  | none => rfl
  | some block =>
    rw [h.blocks_kept _ _ found] at absent
    cases absent

theorem Path.steps (h : Path c) (ledger : Ledger genesis c) (start : genesis.number = 0)
    (steps : Steps c d) (countable : d.blockCount < 2 ^ 64) (nonzero : d.blocks.get? .zero = none) :
    Path d := by
  induction steps with
  | refl => exact h
  | tail before step ih =>
    have middle := (ledger.steps before).1
    have onward := (middle.step step).2
    have path := ih (Nat.lt_of_le_of_lt step.blockCount_le countable) (onward.absent nonzero)
    cases step with
    | attach fits => exact path.attach middle start fits countable nonzero
    | pending => exact { path with }

theorem path_history (start : genesis.number = 0) {config : ChainConfig}
    {deliveries : List Delivery}
    (countable : (history genesis config deliveries).blockCount < 2 ^ 64)
    (nonzero : (history genesis config deliveries).blocks.get? .zero = none) :
    Path (history genesis config deliveries) :=
  (path_new genesis config start).steps (ledger_new genesis config) start
    (steps_history genesis config deliveries) countable nonzero

/-- The block so many parent links below the best one. -/
def ancestor? (c : Chain) : Nat → Option Block
  | 0 => c.blockByHash? c.best
  | above + 1 => (c.ancestor? above).bind fun block => c.blockByHash? block.parentHash

/-- The index names the ancestors of the best block by their numbers and nothing else. -/
structure CanonicalIndex (genesis : Block) (c : Chain) : Prop where
  size : c.canonical.size = c.bestNumber.toNat + 1
  first : c.canonical[0]? = some genesis.hash
  last : c.canonical.back? = some c.best
  entries : ∀ height ≤ c.bestNumber.toNat, ∃ block, c.canonical[height]? = some block.hash ∧
    c.blockByHash? block.hash = some block ∧ block.number.toNat = height
  linked : ∀ height < c.bestNumber.toNat, ∃ upper, c.canonical[height + 1]? = some upper.hash ∧
    c.blockByHash? upper.hash = some upper ∧ c.canonical[height]? = some upper.parentHash
  by_number : ∀ number : UInt64, number ≤ c.bestNumber → ∃ block,
    c.blockByNumber? number = some block ∧ block.number = number ∧
      c.ancestor? (c.bestNumber.toNat - number.toNat) = some block
  above : ∀ number : UInt64, c.bestNumber < number → c.blockByNumber? number = none

theorem Path.entry (h : Path c) (ledger : Ledger genesis c) (numbered : Numbered c.blocks)
    {depth height : Nat} (place : height + depth = c.bestNumber.toNat) :
    ∃ block, c.canonical[height]? = some block.hash ∧ c.blocks.get? block.hash = some block ∧
      block.number.toNat = height ∧ c.ancestor? depth = some block := by
  induction depth generalizing height with
  | zero =>
    obtain ⟨tip, stored, number⟩ := ledger.best_block
    have own := ledger.own_hash _ _ stored
    rw [Nat.add_zero] at place
    subst place
    exact ⟨tip, by rw [h.last, own], by rw [own, stored], by rw [number], stored⟩
  | succ depth ih =>
    have above : height + 1 + depth = c.bestNumber.toNat := by omega
    obtain ⟨upper, named, stored, number, found⟩ := ih above
    obtain ⟨hash, block, entry, held, below⟩ := h.linked height (by omega)
    rw [named, Option.some.injEq] at entry
    subst entry
    rw [stored, Option.some.injEq] at held
    subst held
    obtain ⟨parent, under, follows⟩ := numbered _ upper stored (by omega)
    have own := ledger.own_hash _ _ under
    refine ⟨parent, by rw [below, own], by rw [own, under], by omega, ?_⟩
    rw [ancestor?, found]
    exact under

theorem Path.canonicalIndex (h : Path c) (ledger : Ledger genesis c) (start : genesis.number = 0)
    (countable : c.blockCount < 2 ^ 64) : CanonicalIndex genesis c := by
  have numbered := ledger.numbered start countable
  have entry {height : Nat} (bound : height ≤ c.bestNumber.toNat) :=
    h.entry ledger numbered (Nat.add_sub_cancel' bound)
  refine ⟨h.size, ?_, ?_, ?_, ?_, ?_, ?_⟩
  · obtain ⟨block, named, stored, number, -⟩ := entry (Nat.zero_le _)
    by_cases same : block.hash = genesis.hash
    · rw [named, same]
    · obtain ⟨parent, -, follows⟩ := ledger.number_toNat start countable stored same
      omega
  · rw [Array.back?, h.size]
    exact h.last
  · intro height bound
    obtain ⟨block, named, stored, number, -⟩ := entry bound
    exact ⟨block, named, stored, number⟩
  · intro height bound
    obtain ⟨hash, upper, named, stored, below⟩ := h.linked height bound
    have own := ledger.own_hash _ _ stored
    exact ⟨upper, by rw [named, own], by rw [own]; exact stored, below⟩
  · intro number bound
    obtain ⟨block, named, stored, same, found⟩ := entry (UInt64.le_iff_toNat_le.1 bound)
    refine ⟨block, ?_, UInt64.toNat_inj.1 same, found⟩
    rw [blockByNumber?, named]
    exact stored
  · intro number bound
    have beyond : c.canonical.size ≤ number.toNat := by
      rw [h.size]
      exact UInt64.lt_iff_toNat_lt.1 bound
    rw [blockByNumber?, Array.getElem?_eq_none beyond]
    rfl

theorem index_of_reached (start : genesis.number = 0)
    (reached : ∃ config deliveries, c = history genesis config deliveries)
    (countable : c.blockCount < 2 ^ 64) (nonzero : c.blockByHash? .zero = none) :
    CanonicalIndex genesis c ∧ c.bestNumber.toNat + 1 < 2 ^ 64 := by
  obtain ⟨config, deliveries, rfl⟩ := reached
  have ledger := ledger_history genesis config deliveries
  have path := path_history start countable nonzero
  exact ⟨path.canonicalIndex ledger start countable, ledger.bestNumber_lt start countable⟩

/-- Whatever was delivered, the index is the way from the genesis block to the best one,
provided that no stored block hashes to zero and that the stored blocks can be counted in
a machine word, as those of any table in memory can. -/
theorem canonical_index_of_history {config : ChainConfig} {deliveries : List Delivery}
    (start : genesis.number = 0)
    (countable : (history genesis config deliveries).blockCount < 2 ^ 64)
    (nonzero : (history genesis config deliveries).blockByHash? .zero = none) :
    CanonicalIndex genesis (history genesis config deliveries) := by
  have path := path_history start countable nonzero
  exact path.canonicalIndex (ledger_history genesis config deliveries) start countable

/-! A fork with two blocks in a row on one side and a heavier one on the other. -/
namespace Fork

def child (parent : Block) (difficulty : Difficulty) : Block :=
  ⟨{ Header.empty with
      number := parent.number + 1, parentHash := parent.hash, difficulty
      txRoot := Body.root ⟨[]⟩ },
    ⟨[]⟩⟩

theorem parentHash_child (parent : Block) (difficulty : Difficulty) :
    (child parent difficulty).parentHash = parent.hash :=
  rfl

theorem number_child (parent : Block) (difficulty : Difficulty) :
    (child parent difficulty).number = parent.number + 1 :=
  rfl

def start : Block := ⟨.empty, ⟨[]⟩⟩

def first : Block := child start 1

def second : Block := child first 1

def heavy : Block := child start 10

theorem hashes_differ :
    ([start, second, first, heavy].map Block.hash ++ [Hash.zero]).Nodup := by
  decide +kernel

theorem eq_of_hash {left right : Block} (here : left ∈ [start, second, first, heavy])
    (there : right ∈ [start, second, first, heavy]) (same : left.hash = right.hash) :
    left = right :=
  List.inj_on_of_nodup_map (List.nodup_append.1 hashes_differ).1 here there same

end Fork

/-- The second block waits for the first, and then the heavier one takes over. -/
theorem canonical_index_of_fork :
    CanonicalIndex Fork.start (history Fork.start {}
      [.range [Fork.second], .block Fork.first, .block Fork.heavy]) := by
  refine canonical_index_of_history rfl ?_ ?_
  · exact Nat.lt_of_le_of_lt (blockCount_history_le _ _ _) (by decide)
  · apply Option.eq_none_iff_forall_ne_some.2
    intro block stored
    have own := (ledger_history _ _ _).own_hash _ _ stored
    have listed : block ∈ [Fork.start, Fork.second, Fork.first, Fork.heavy] := by
      rcases (waits_history _ _ _).2.stored _ _ stored with rfl | came
      · exact List.mem_cons_self
      · exact List.mem_cons_of_mem _ (List.mem_flatMap.2 came)
    have apart := (List.nodup_append.1 Fork.hashes_differ).2.2
    exact apart _ (List.mem_map_of_mem listed) _ (List.mem_singleton.2 rfl) own

end BlockSync.Chain
