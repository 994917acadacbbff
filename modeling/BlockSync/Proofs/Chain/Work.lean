import BlockSync.Proofs.Chain.DeliveryOrder

/-! Work. What a chain records for a block is the sum of the difficulties from the genesis block
to it, modulo `2 ^ 256`. The recorded totals are the sums, and their order is that of the sums,
exactly as long as no sum reaches that bound. Difficulties are free, so one block can reach it. -/
namespace BlockSync.Chain

/-- Along parents the difficulties from the genesis block to a stored one add up to this. -/
inductive Work (genesis : Block) (c : Chain) : Hash → Nat → Prop
  | genesis : Work genesis c genesis.hash genesis.header.difficulty.toNat
  | child {hash : Hash} {block : Block} {sum : Nat} (stored : c.blocks.get? hash = some block)
      (apart : hash ≠ genesis.hash) (below : Work genesis c block.parentHash sum) :
      Work genesis c hash (sum + block.header.difficulty.toNat)

variable {genesis block : Block} {c d : Chain} {hash : Hash} {sum other : Nat}

theorem Work.mono (h : Work genesis c hash sum) (grown : Extends c d) :
    Work genesis d hash sum := by
  induction h with
  | genesis => exact .genesis
  | child stored apart _ ih => exact .child (grown.blocks_kept _ _ stored) apart ih

theorem Work.unique (h : Work genesis c hash sum) (k : Work genesis c hash other) :
    sum = other := by
  induction h generalizing other with
  | genesis =>
    cases k with
    | genesis => rfl
    | child _ apart => exact absurd rfl apart
  | child stored apart _ ih =>
    cases k with
    | genesis => exact absurd rfl apart
    | child stored' _ below =>
      rw [stored, Option.some.injEq] at stored'
      subst stored'
      rw [ih below]

theorem Ledger.recorded (ledger : Ledger genesis c) (h : Work genesis c hash sum) :
    c.totals.get? hash = some (BitVec.ofNat 256 sum) := by
  induction h with
  | genesis => rw [ledger.genesis_total, BitVec.ofNat_toNat, BitVec.setWidth_eq]
  | @child hash block sum stored apart _ ih =>
    obtain ⟨-, total, -, -, below, recorded⟩ := ledger.extends_parent _ _ stored apart
    rw [ih, Option.some.injEq] at below
    rw [recorded, ← below, BitVec.ofNat_add, BitVec.ofNat_toNat, BitVec.setWidth_eq]

theorem exists_work {config : ChainConfig} (steps : Steps (.new genesis config) c)
    (stored : c.blocks.get? hash = some block) : ∃ sum, Work genesis c hash sum := by
  induction steps generalizing hash block with
  | refl =>
    rw [blocks_new] at stored
    split at stored
    · rename_i same
      subst same
      exact ⟨_, .genesis⟩
    · cases stored
  | @tail middle _ before step ih =>
    have sound := ((ledger_new genesis config).steps before).1
    obtain ⟨next, grown⟩ := sound.step step
    have earlier {hash : Hash} {block : Block} (held : middle.blocks.get? hash = some block) :=
      (ih held).imp fun _ work => work.mono grown
    cases step with
    | pending => exact earlier stored
    | attach fits =>
      rcases stored_attach stored with rfl | old
      · have own := next.own_hash _ _ stored
        have apart := sound.ne_of_fresh fits.fresh sound.genesis_total
        rw [own] at apart
        obtain ⟨sum, below⟩ := earlier fits.parent_stored
        exact ⟨_, .child stored apart below⟩
      · exact earlier old

/-- In every state that deliveries lead to, each stored block has one exact sum, and its total is
recorded modulo `2 ^ 256`. So a block of some difficulty counts as heavier than its parent if the
two numbers that are added do not wrap, and as lighter or equal if they do. If no sum reaches the
bound, all totals are exact and the best block has the greatest. -/
theorem work_of_history (genesis : Block) (config : ChainConfig) (deliveries : List Delivery) :
    let c := history genesis config deliveries
    (∀ hash block, c.blockByHash? hash = some block → ∃! sum, Work genesis c hash sum) ∧
    (∀ hash sum, Work genesis c hash sum →
      ∃ total, c.total? hash = some total ∧ total.toNat = sum % 2 ^ 256) ∧
    (∀ hash block below total, c.blockByHash? hash = some block → hash ≠ genesis.hash →
      c.total? block.parentHash = some below → c.total? hash = some total →
      0 < block.header.difficulty →
      (below < total ↔ below.toNat + block.header.difficulty.toNat < 2 ^ 256)) ∧
    ((∀ hash sum, Work genesis c hash sum → sum < 2 ^ 256) →
      ∃ most, Work genesis c c.best most ∧ c.total.toNat = most ∧
        ∀ hash sum, Work genesis c hash sum → sum ≤ most) := by
  intro c
  have ledger : Ledger genesis c := ledger_history genesis config deliveries
  have work {hash : Hash} {block : Block} (stored : c.blocks.get? hash = some block) :=
    exists_work (steps_history genesis config deliveries) stored
  refine ⟨?_, ?_, ?_, ?_⟩
  · intro hash block stored
    obtain ⟨sum, sums⟩ := work stored
    exact ⟨sum, sums, fun _ also => also.unique sums⟩
  · intro hash sum sums
    exact ⟨_, ledger.recorded sums, BitVec.toNat_ofNat sum 256⟩
  · intro hash block below total stored apart under recorded positive
    obtain ⟨-, base, -, -, found, sum⟩ := ledger.extends_parent _ _ stored apart
    rw [total?, found, Option.some.injEq] at under
    rw [total?, sum, Option.some.injEq] at recorded
    subst under recorded
    exact lt_add_iff positive
  · intro exact
    obtain ⟨block, stored⟩ := ledger.stored_of_total ledger.best_total
    obtain ⟨most, sums⟩ := work stored
    have value {hash : Hash} {sum : Nat} (sums : Work genesis c hash sum) :
        (BitVec.ofNat 256 sum).toNat = sum :=
      (BitVec.toNat_ofNat sum 256).trans (Nat.mod_eq_of_lt (exact hash sum sums))
    have top : c.total = BitVec.ofNat 256 most := by
      have recorded := ledger.recorded sums
      rwa [ledger.best_total, Option.some.injEq] at recorded
    refine ⟨most, sums, by rw [top, value sums], ?_⟩
    intro hash sum sums'
    have below := BitVec.le_def.1 (ledger.best_heaviest _ _ (ledger.recorded sums'))
    rwa [top, value sums, value sums'] at below

/-! Two blocks that weigh `2 ^ 256` together. -/
namespace Overweight

def light : Block := ⟨{ Header.empty with difficulty := 1 }, ⟨[]⟩⟩

def heaviest : Block := Fork.child light (.allOnes 256)

theorem hashes_differ : heaviest.hash ≠ light.hash := by
  decide +kernel

theorem parentHash_heaviest : heaviest.parentHash = light.hash :=
  Fork.parentHash_child light _

theorem weights :
    light.header.difficulty.toNat + heaviest.header.difficulty.toNat = 2 ^ 256 ∧
      1 + heaviest.header.difficulty = 0 ∧ BitVec.ofNat 256 (2 ^ 256) = 0 := by
  decide +kernel

end Overweight

/-- The heaviest block of all is recorded to weigh nothing, and is not the best one. -/
theorem total_of_heaviest :
    let c := history Overweight.light {} [.block Overweight.heaviest]
    Work Overweight.light c Overweight.heaviest.hash (2 ^ 256) ∧
      c.total? Overweight.heaviest.hash = some 0 ∧ c.total? Overweight.light.hash = some 1 ∧
      c.best = Overweight.light.hash := by
  intro c
  obtain ⟨exact, wrapped, nothing⟩ := Overweight.weights
  have start := ledger_new Overweight.light {}
  have fresh : (Chain.new Overweight.light {}).blocks.get? Overweight.heaviest.hash = none := by
    rw [blocks_new, if_neg Overweight.hashes_differ.symm]
  have fits : (Chain.new Overweight.light {}).Fits Overweight.heaviest Overweight.light 1 :=
    { fresh, parent_stored := by rw [Overweight.parentHash_heaviest]; exact start.genesis_stored
      parent_total := by rw [Overweight.parentHash_heaviest]; exact start.genesis_total
      number := rfl }
  have reached : c = (Chain.new Overweight.light {}).attach Overweight.heaviest 0 := by
    rw [← wrapped, ← start.offer_fits fits (Table.get?_empty _)]
    exact history_block _ _ _
  have ledger : Ledger Overweight.light c := ledger_history _ _ _
  have stored : c.blocks.get? Overweight.heaviest.hash = some Overweight.heaviest := by
    rw [reached]
    exact get?_attach_self _ _ _
  have below : Work Overweight.light c Overweight.heaviest.parentHash
      Overweight.light.header.difficulty.toNat := by
    rw [Overweight.parentHash_heaviest]
    exact .genesis
  have sums := Work.child stored Overweight.hashes_differ below
  rw [exact] at sums
  have recorded := ledger.recorded sums
  rw [nothing] at recorded
  refine ⟨sums, recorded, ledger.genesis_total, ?_⟩
  rw [reached, start.best_attach fresh, total_new]
  exact if_neg (by decide)

end BlockSync.Chain
