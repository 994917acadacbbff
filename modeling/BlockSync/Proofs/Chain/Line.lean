import BlockSync.Proofs.Chain.Orphans
import BlockSync.Proofs.Sync.Served
import Mathlib.Algebra.GroupWithZero.Nat

/-! Blocks in a line. Where each block builds on the one before it, has some difficulty, and
has a hash of its own, a chain that is offered them in order makes each the best block, and
nothing ever waits. -/
namespace BlockSync

variable {hash : Hash} {number : UInt64} {block : Block} {blocks front rest : List Block}

theorem Follows.above (follows : Follows hash number blocks) (member : block ∈ blocks) :
    number.toNat < block.number.toNat := by
  induction blocks generalizing hash number with
  | nil => cases member
  | cons first rest ih =>
    obtain ⟨-, next, later⟩ := follows
    rcases List.mem_cons.1 member with rfl | behind
    · omega
    · have above := ih later behind
      omega

theorem Follows.drop (follows : Follows hash number (front ++ rest)) :
    ∃ under count, Follows under count rest := by
  induction front generalizing hash number with
  | nil => exact ⟨hash, number, follows⟩
  | cons first front ih => exact ih follows.2.2

theorem Follows.take (follows : Follows hash number (front ++ rest)) :
    Follows hash number front := by
  induction front generalizing hash number with
  | nil => trivial
  | cons first front ih => exact ⟨follows.1, follows.2.1, ih follows.2.2⟩

/-- A line is as long as it is high. -/
theorem Follows.height (follows : Follows hash number (front ++ [block])) :
    block.number.toNat = number.toNat + front.length + 1 := by
  induction front generalizing hash number with
  | nil => exact follows.2.1
  | cons first front ih =>
    rw [ih follows.2.2, follows.2.1, List.length_cons]
    omega

/-- The last block of a line builds on the one before it. -/
theorem Follows.last {tip : Block} (follows : Follows hash number (front ++ [tip] ++ [block])) :
    block.parentHash = tip.hash ∧ block.number.toNat = tip.number.toNat + 1 := by
  induction front generalizing hash number with
  | nil => exact ⟨follows.2.2.1, follows.2.2.2.1⟩
  | cons first front ih => exact ih follows.2.2

namespace Chain

variable {genesis tip : Block} {c : Chain} {seen : List Block}

theorem Ledger.offer_heavier (h : Ledger genesis c) {parent : Block} {total : Difficulty}
    (fits : c.Fits block parent total) (heavier : c.total < total + block.header.difficulty)
    (alone : c.pending.get? block.hash = none) :
    c.offer block = (.importedBest, c.attach block (total + block.header.difficulty)) := by
  refine Prod.ext ?_ (h.offer_fits fits alone)
  rw [h.offer_of_fits fits, if_pos heavier]

/-- The difficulties of a genesis block and of some blocks, added without a bound. -/
def weight (genesis : Block) (blocks : List Block) : Nat :=
  genesis.header.difficulty.toNat + (blocks.map fun block => block.header.difficulty.toNat).sum

theorem weight_concat (genesis : Block) (blocks : List Block) (block : Block) :
    weight genesis (blocks ++ [block]) = weight genesis blocks + block.header.difficulty.toNat := by
  simp [weight, Nat.add_assoc]

theorem weight_le_append (genesis : Block) (front rest : List Block) :
    weight genesis front ≤ weight genesis (front ++ rest) := by
  simp only [weight, List.map_append, List.sum_append]
  omega

/-- A chain that consists of a genesis block and a line above it up to its best block. -/
structure Line (genesis : Block) (seen : List Block) (tip : Block) (c : Chain) : Prop where
  ledger : Ledger genesis c
  listed : ∀ hash block, c.blocks.get? hash = some block → block ∈ genesis :: seen
  lower : ∀ block ∈ genesis :: seen, block.number.toNat ≤ tip.number.toNat
  stored : c.blocks.get? tip.hash = some tip
  best : c.best = tip.hash
  total : c.total.toNat = weight genesis seen
  height : tip.number.toNat = genesis.number.toNat + seen.length
  count : c.blockCount = seen.length + 1
  idle : c.pending = .empty
  none_pending : c.pendingCount = 0

theorem line_new (genesis : Block) (config : ChainConfig) :
    Line genesis [] genesis (.new genesis config) where
  ledger := ledger_new genesis config
  listed hash block stored := by
    rw [blocks_new] at stored
    split at stored <;> cases stored
    exact List.mem_cons_self
  lower block member := by
    obtain rfl := List.mem_singleton.1 member
    exact Nat.le_refl _
  stored := by rw [blocks_new, if_pos rfl]
  best := rfl
  total := by rw [total_new]; rfl
  height := rfl
  count := rfl
  idle := rfl
  none_pending := rfl

/-- One more block on top becomes the best one and ends the line. -/
theorem Line.offer (h : Line genesis seen tip c) (link : block.parentHash = tip.hash)
    (number : block.number.toNat = tip.number.toNat + 1)
    (apart : ∀ other ∈ genesis :: seen, other.hash = block.hash → other.header = block.header)
    (positive : 0 < block.header.difficulty)
    (exact : weight genesis (seen ++ [block]) < 2 ^ 256) :
    (c.offer block).1 = .importedBest ∧ Line genesis (seen ++ [block]) block (c.offer block).2 := by
  have fresh : c.blocks.get? block.hash = none := by
    apply Option.eq_none_iff_forall_ne_some.2
    intro other held
    have member := h.listed _ _ held
    have same := apart other member (h.ledger.own_hash _ _ held)
    have below := h.lower other member
    have numbers : other.number = block.number := congrArg Header.number same
    rw [numbers] at below
    omega
  have room : tip.number.toNat + 1 < 2 ^ 64 := number ▸ block.number.toNat_lt
  have fits : c.Fits block tip c.total :=
    { fresh, parent_stored := by rw [link]; exact h.stored
      parent_total := by rw [link, ← h.best]; exact h.ledger.best_total
      number := UInt64.toNat_inj.1 (number.trans (toNat_add_one room).symm) }
  have sum : (c.total + block.header.difficulty).toNat = weight genesis (seen ++ [block]) := by
    rw [BitVec.toNat_add, h.total, ← weight_concat, Nat.mod_eq_of_lt exact]
  have heavier : c.total < c.total + block.header.difficulty :=
    (lt_add_iff positive).2 (by rw [h.total, ← weight_concat]; exact exact)
  have offered := h.ledger.offer_heavier fits heavier (by rw [h.idle]; rfl)
  rw [offered]
  refine ⟨rfl,
    { ledger := h.ledger.attach fits, listed := ?_, lower := ?_
      stored := get?_attach_self _ _ _
      best := by rw [h.ledger.best_attach fresh, if_pos heavier]
      total := by rw [h.ledger.total_attach fresh, if_pos heavier, sum]
      height := ?_
      count := by rw [blockCount_attach fits, h.count, List.length_append, List.length_singleton]
      idle := by rw [pending_attach, h.idle]
      none_pending := by rw [pendingCount_attach, h.none_pending] }⟩
  · intro hash other held
    rw [← List.cons_append, List.mem_append]
    rcases stored_attach held with rfl | old
    · exact .inr List.mem_cons_self
    · exact .inl (h.listed _ _ old)
  · intro other member
    rw [← List.cons_append, List.mem_append] at member
    rcases member with old | new
    · have below := h.lower other old
      omega
    · obtain rfl := List.mem_singleton.1 new
      exact Nat.le_refl _
  · rw [number, h.height, List.length_append, List.length_singleton, Nat.add_assoc]

/-- What a line above the genesis block needs for each block to become the best one. -/
structure Climbs (genesis : Block) (blocks : List Block) : Prop where
  follows : Follows genesis.hash genesis.number blocks
  unambiguous : Unambiguous genesis blocks
  positive : ∀ block ∈ blocks, 0 < block.header.difficulty
  exact : weight genesis blocks < 2 ^ 256

theorem Line.offerAll (h : Line genesis seen tip c)
    (climbs : Climbs genesis (seen ++ front ++ rest))
    (follows : Follows tip.hash tip.number (front ++ rest)) :
    ∃ top, Line genesis (seen ++ front) top (c.offerAll front) ∧
      Follows top.hash top.number rest := by
  induction front generalizing seen tip c with
  | nil => exact ⟨tip, by rwa [List.append_nil], follows⟩
  | cons block front ih =>
    obtain ⟨link, number, later⟩ := follows
    rw [List.append_cons seen block front] at climbs ⊢
    have exact : weight genesis (seen ++ [block]) < 2 ^ 256 := by
      refine Nat.lt_of_le_of_lt ?_ climbs.exact
      rw [List.append_assoc]
      exact weight_le_append genesis _ _
    have next := (h.offer link number ?_ (climbs.positive block (by simp)) exact).2
    · exact ih next climbs later
    · intro other member
      refine climbs.unambiguous other ?_ block (by simp)
      simp only [List.mem_cons, List.mem_append] at member ⊢
      tauto

/-- Each block of a climbing line becomes the best one in its turn. -/
theorem Climbs.importedBest (climbs : Climbs genesis (front ++ block :: rest))
    (config : ChainConfig) :
    (((Chain.new genesis config).offerAll front).offer block).1 = .importedBest := by
  have under : Climbs genesis ([] ++ front ++ block :: rest) := climbs
  obtain ⟨top, line, link, number, -⟩ :=
    (line_new genesis config).offerAll under climbs.follows
  refine (line.offer link number ?_ (climbs.positive block (by simp)) ?_).1
  · intro other member
    refine climbs.unambiguous other ?_ block (by simp)
    simp only [List.nil_append, List.mem_cons, List.mem_append] at member ⊢
    tauto
  · refine Nat.lt_of_le_of_lt ?_ climbs.exact
    rw [List.append_cons front block rest]
    exact weight_le_append genesis _ _

theorem Climbs.line (climbs : Climbs genesis blocks) (config : ChainConfig) :
    ∃ top, Line genesis blocks top ((Chain.new genesis config).offerAll blocks) := by
  have all : Climbs genesis ([] ++ blocks ++ []) := by
    rwa [List.nil_append, List.append_nil]
  obtain ⟨top, line, -⟩ := (line_new genesis config).offerAll all
    (by rw [List.append_nil]; exact climbs.follows)
  exact ⟨top, line⟩

end Chain

end BlockSync
