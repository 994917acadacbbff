import BlockSync.Proofs.Chain.Line
import BlockSync.Proofs.Chain.Work
import BlockSync.Proofs.Sync.Import

/-! A heavy block and a long line beside it. While both grow on the genesis block the heavy block
is the best one, as long as it outweighs the line. The next block of the line finds its parent
stored, however far it is above the best block, and becomes the best one if it tips the scales. -/
namespace BlockSync.Chain

variable {genesis heavy far : Block} {line : List Block} {c : Chain}

/-- Along a line of stored blocks the work adds up. -/
theorem Work.along {front : List Block} {block : Block} {hash : Hash} {number : UInt64} {sum : Nat}
    (base : Work genesis c hash sum) (follows : Follows hash number (front ++ [block]))
    (stored : ∀ other ∈ front ++ [block],
      c.blocks.get? other.hash = some other ∧ other.hash ≠ genesis.hash) :
    Work genesis c block.hash
      (sum + ((front ++ [block]).map fun block => block.header.difficulty.toNat).sum) := by
  induction front generalizing hash number sum with
  | nil =>
    obtain ⟨here, apart⟩ := stored block List.mem_cons_self
    have below : Work genesis c block.parentHash sum := follows.1 ▸ base
    simpa using Work.child here apart below
  | cons first front ih =>
    obtain ⟨here, apart⟩ := stored first List.mem_cons_self
    have below : Work genesis c first.parentHash sum := follows.1 ▸ base
    have later := ih (.child here apart below) follows.2.2
      fun other member => stored other (List.mem_cons_of_mem _ member)
    simpa [Nat.add_assoc] using later

/-- The heavy block outweighs the line beside it, but not with one more block on the line. -/
structure Overtakes (genesis heavy : Block) (line : List Block) (far : Block) : Prop where
  distinct : ((genesis :: heavy :: line ++ [far]).map Block.hash).Nodup
  above : Follows genesis.hash genesis.number [heavy]
  beside : Follows genesis.hash genesis.number (line ++ [far])
  long : 100 < line.length
  lighter : weight genesis line < weight genesis [heavy]
  heavier : weight genesis [heavy] < weight genesis (line ++ [far])
  bounded : weight genesis (line ++ [far]) < 2 ^ 256

/-- A chain that has the heavy block and the line, and nothing else. -/
structure Splits (genesis heavy : Block) (line : List Block) (c : Chain) : Prop where
  ledger : Ledger genesis c
  listed : ∀ hash block, c.blocks.get? hash = some block → block ∈ genesis :: heavy :: line
  stored : ∀ block ∈ heavy :: line, c.blocks.get? block.hash = some block

namespace Overtakes

theorem eq_of_hash (o : Overtakes genesis heavy line far) {block other : Block}
    (member : block ∈ genesis :: heavy :: line) (member' : other ∈ genesis :: heavy :: line)
    (same : block.hash = other.hash) : block = other := by
  have distinct := o.distinct
  rw [List.map_append, List.nodup_append] at distinct
  exact List.inj_on_of_nodup_map distinct.1 member member' same

theorem ne_far (o : Overtakes genesis heavy line far) {block : Block}
    (member : block ∈ genesis :: heavy :: line) : block.hash ≠ far.hash := by
  have distinct := o.distinct
  rw [List.map_append, List.nodup_append] at distinct
  exact distinct.2.2 _ (List.mem_map_of_mem member) _ (List.mem_singleton.2 rfl)

theorem ne_genesis (o : Overtakes genesis heavy line far) {block : Block}
    (member : block ∈ heavy :: line) : block.hash ≠ genesis.hash := by
  intro same
  refine (List.nodup_cons.1 o.distinct).1 (same ▸ List.mem_map_of_mem ?_)
  exact List.mem_append_left [far] member

/-- The import of the heavy block and the line leads there. -/
theorem splits_import (o : Overtakes genesis heavy line far) {i : Intake} {config : ChainConfig}
    (sound : i.Sound genesis) (start : i.chain = .new genesis config) :
    Splits genesis heavy line (i.importBlocks (heavy :: line)).1.chain := by
  have origin : Origin genesis (· ∈ heavy :: line) i.chain := by
    rw [start]
    exact origin_new genesis config _
  have base : i.chain.blocks.get? genesis.hash = some genesis := sound.ledger.genesis_stored
  obtain ⟨link, count, -⟩ := o.above
  have next : heavy.number = genesis.number + 1 := by
    have bound := heavy.number.toNat_lt
    exact UInt64.toNat_inj.1 (count.trans (toNat_add_one (by omega)).symm)
  -- first the heavy block, then the line
  obtain ⟨traced, grown, first, here⟩ :=
    sound.importBlock_spec origin .zero List.mem_cons_self (link ▸ base) next
  have alike (block : Block) (member : block ∈ line) (other : Block)
      (known : other = genesis ∨ other ∈ heavy :: line) (same : other.hash = block.hash) :
      other.header = block.header :=
    congrArg Block.header (o.eq_of_hash (List.mem_cons.2 known)
      (List.mem_cons_of_mem _ (List.mem_cons_of_mem _ member)) same)
  obtain ⟨sound, traced, further, rest⟩ := (sound.importBlock .zero heavy).import_follows traced
    (Intake.importBlock (i, .zero) heavy).2 (fun block => List.mem_cons_of_mem heavy) alike
    (grown.blocks_kept _ _ base) rfl o.beside.take (fun _ => false)
    fun _ _ held => absurd held Bool.false_ne_true
  have every : line.filter (fun _ => !false) = line := List.filter_eq_self.2 fun _ _ => rfl
  rw [every] at sound traced further rest
  let j := Intake.importBlock (i, .zero) heavy
  change Splits genesis heavy line (line.foldl Intake.importBlock (j.1, j.2)).1.chain
  generalize (line.foldl Intake.importBlock (j.1, j.2)).1 = k at sound traced further rest ⊢
  have listed (hash : Hash) (block : Block) (held : k.chain.blocks.get? hash = some block) :=
    List.mem_cons.2 (traced.stored hash block held)
  refine ⟨sound.ledger, listed, fun block member => ?_⟩
  obtain ⟨other, held⟩ : ∃ other, k.chain.blocks.get? block.hash = some other := by
    rcases List.mem_cons.1 member with same | inside
    · exact ⟨first, same ▸ further.blocks_kept _ _ here⟩
    · exact rest block inside
  rwa [o.eq_of_hash (listed _ _ held) (List.mem_cons_of_mem _ member)
    (sound.ledger.own_hash _ _ held)] at held

variable (o : Overtakes genesis heavy line far) (h : Splits genesis heavy line c)

include o h

theorem work_heavy : Work genesis c heavy.hash (weight genesis [heavy]) := by
  have base : Work genesis c heavy.parentHash genesis.header.difficulty.toNat :=
    o.above.1 ▸ .genesis
  simpa [weight] using
    Work.child (h.stored _ List.mem_cons_self) (o.ne_genesis List.mem_cons_self) base

theorem work_line {front back : List Block} {block : Block} (split : line = front ++ block :: back) :
    Work genesis c block.hash (weight genesis (front ++ [block])) := by
  have beside := o.beside.take
  rw [split, List.append_cons] at beside
  refine Work.along .genesis beside.take fun other member => ?_
  have inside : other ∈ heavy :: line := by
    rw [split, List.append_cons]
    exact List.mem_cons_of_mem _ (List.mem_append_left back member)
  exact ⟨h.stored _ inside, o.ne_genesis inside⟩

/-- The heavy block is the best one, as whatever else is stored is lighter. -/
theorem best : c.bestNumber = heavy.number ∧ c.total.toNat = weight genesis [heavy] := by
  have exact {sum : Nat} (small : sum ≤ weight genesis [heavy]) :
      (BitVec.ofNat 256 sum).toNat = sum := by
    rw [BitVec.toNat_ofNat]
    exact Nat.mod_eq_of_lt (Nat.lt_of_le_of_lt small (Nat.lt_trans o.heavier o.bounded))
  have recorded := h.ledger.recorded (o.work_heavy h)
  have least := BitVec.le_def.1 (h.ledger.best_heaviest _ _ recorded)
  rw [exact (Nat.le_refl _)] at least
  obtain ⟨top, found⟩ := h.ledger.stored_of_total h.ledger.best_total
  have own := h.ledger.own_hash _ _ found
  have not_lighter {sum : Nat} (work : Work genesis c top.hash sum) :
      ¬ sum < weight genesis [heavy] := by
    intro less
    have total := h.ledger.recorded work
    rw [own, h.ledger.best_total, Option.some.injEq] at total
    rw [total, exact (Nat.le_of_lt less)] at least
    omega
  have heaviest : top = heavy := by
    rcases List.mem_cons.1 (h.listed _ _ found) with rfl | member
    · refine absurd ?_ (not_lighter .genesis)
      exact Nat.lt_of_le_of_lt (weight_le_append top [] line) o.lighter
    · rcases List.mem_cons.1 member with rfl | inside
      · rfl
      · obtain ⟨front, back, split⟩ := List.append_of_mem inside
        refine absurd (Nat.lt_of_le_of_lt ?_ o.lighter) (not_lighter (o.work_line h split))
        have shorter := weight_le_append genesis (front ++ [top]) back
        rwa [← List.append_cons, ← split] at shorter
  rw [heaviest] at own found
  refine ⟨bestNumber_eq found, ?_⟩
  have total := h.ledger.best_total
  rw [← own, recorded, Option.some.injEq] at total
  rw [← total, exact (Nat.le_refl _)]

/-- The next block of the line is connected and outweighs the heavy block. -/
theorem fits : ∃ tip total, c.Fits far tip total ∧ c.total < total + far.header.difficulty := by
  have long := o.long
  obtain ⟨front, tip, split⟩ : ∃ front tip, line = front ++ [tip] := by
    refine ⟨line.dropLast, line.getLast ?_, (List.dropLast_append_getLast _).symm⟩
    rintro rfl
    cases long
  have beside := o.beside
  rw [split] at beside
  obtain ⟨link, count⟩ := beside.last
  have work := h.ledger.recorded (o.work_line h split)
  rw [← split] at work
  refine ⟨tip, .ofNat 256 (weight genesis line), ⟨?_, ?_, ?_, ?_⟩, ?_⟩
  · refine Option.eq_none_iff_forall_ne_some.2 fun other held => ?_
    exact o.ne_far (h.listed _ _ held) (h.ledger.own_hash _ _ held)
  · rw [link]
    exact h.stored tip (by simp [split])
  · rw [link]
    exact work
  · have bound := far.number.toNat_lt
    exact UInt64.toNat_inj.1 (count.trans (toNat_add_one (by omega)).symm)
  · have heavier := o.heavier
    have bounded := o.bounded
    rw [weight_concat] at heavier bounded
    rw [BitVec.lt_def, (o.best h).2, BitVec.toNat_add, BitVec.toNat_ofNat]
    omega

theorem far_above : c.bestNumber.toNat + 100 < far.number.toNat := by
  have long := o.long
  rw [(o.best h).1, o.above.2.1, o.beside.height]
  omega

end Overtakes

end BlockSync.Chain
