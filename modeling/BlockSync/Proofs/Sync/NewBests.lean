import BlockSync.Proofs.Chain.Line
import BlockSync.Proofs.Chain.Offers
import BlockSync.Proofs.Sync.Course
import BlockSync.Proofs.Sync.Import
import BlockSync.Proofs.Sync.ImportAccount

/-! The best block of an import. Each block of a batch that becomes the best one is heavier than
the best one before it, so the last of them is the heaviest. The summary gives its number. A
heavier fork may be shorter, and then that number is not the highest. -/
namespace BlockSync

variable {genesis block : Block} {blocks : List Block}

namespace Chain

variable {c : Chain}

/-- Both blocks are recorded, the second with more work. -/
def Lighter (c : Chain) (block other : Block) : Prop :=
  ∃ less more, c.total? block.hash = some less ∧ c.total? other.hash = some more ∧ less < more

/-- A block that becomes the best one is recorded as heavier than the best one before it. -/
theorem Ledger.heavier_of_importedBest (h : Ledger genesis c)
    (said : (c.offer block).1 = .importedBest) :
    ∃ weight, (c.offer block).2.total? block.hash = some weight ∧ c.total < weight := by
  obtain ⟨-, same⟩ | ⟨-, result, kept, offered⟩ | ⟨-, refused⟩ |
    ⟨result, parent, total, fits, -, connected⟩ := h.offer_cases block
  · rw [same] at said
    cases said
  · rw [offered] at said
    rcases kept with rfl | rfl <;> cases said
  · rw [refused] at said
    cases said
  · rw [h.offer_of_fits fits] at said ⊢
    have grown := ((h.attach fits).steps (steps_drain _ [block.hash])).2
    refine ⟨total + block.header.difficulty, grown.totals_kept _ _ ?_, ?_⟩
    · rw [totals_attach, Table.get?_insert, if_pos rfl]
    · by_contra lighter
      rw [if_neg lighter] at said
      cases said

end Chain

namespace Intake

variable {i : Intake}

/-- The blocks of a batch that became the best one when they were offered, in order. -/
def risen (i : Intake) : List Block → List Block
  | [] => []
  | block :: rest =>
    let later := (importBlock (i, .zero) block).1.risen rest
    if i.answer? block = some .importedBest then block :: later else later

theorem risen_sublist (i : Intake) (blocks : List Block) : (i.risen blocks).Sublist blocks := by
  induction blocks generalizing i with
  | nil => exact .slnil
  | cons block rest ih =>
    unfold risen
    dsimp only
    split
    · exact (ih _).cons_cons block
    · exact (ih _).cons block

theorem best_importBlock (i : Intake) (summary : ImportSummary) (block : Block) :
    (importBlock (i, summary) block).2.best =
      if i.answer? block = some .importedBest then some block.number else summary.best := by
  cases known : i.imported.contains block.hash with
  | true => simp [importBlock, answer?, known]
  | false =>
    cases said : (i.chain.offer block).1 <;>
      simp [importBlock, answer?, known, said, ImportSummary.count]

/-- The summary gives the number of the last block that became the best one. -/
theorem best_foldl_importBlock (i : Intake) (summary : ImportSummary) (blocks : List Block) :
    (blocks.foldl importBlock (i, summary)).2.best =
      ((i.risen blocks).getLast?.map Block.number).or summary.best := by
  induction blocks generalizing i summary with
  | nil => rfl
  | cons block rest ih =>
    rw [List.foldl_cons, ← Prod.mk.eta (p := importBlock (i, summary) block), ih,
      importBlock_fst, best_importBlock, risen]
    split
    · cases (importBlock (i, .zero) block).1.risen rest <;> simp [List.getLast?_cons]
    · rfl

theorem best_importBlocks (i : Intake) (blocks : List Block) :
    (i.importBlocks blocks).2.best = (i.risen blocks).getLast?.map Block.number :=
  (best_foldl_importBlock i .zero blocks).trans (Option.or_none ..)

theorem steps_importBlock (i : Intake) (summary : ImportSummary) (block : Block) :
    Chain.Steps i.chain (importBlock (i, summary) block).1.chain := by
  rw [chain_importBlock]
  split
  · exact .refl _
  · exact Chain.steps_offer _ _

theorem steps_foldl_importBlock (i : Intake) (summary : ImportSummary) (blocks : List Block) :
    Chain.Steps i.chain (blocks.foldl importBlock (i, summary)).1.chain := by
  induction blocks generalizing i summary with
  | nil => exact .refl _
  | cons block rest ih => exact (steps_importBlock i summary block).trans (ih _ _)

/-- A block that becomes the best one is recorded as heavier than the best one before it, and as
no heavier than the best one after it. -/
theorem weight_of_answer (ledger : Chain.Ledger genesis i.chain) (summary : ImportSummary)
    (said : i.answer? block = some .importedBest) :
    let c := (importBlock (i, summary) block).1.chain
    ∃ weight, c.total? block.hash = some weight ∧ i.chain.total < weight ∧ weight ≤ c.total := by
  intro c
  have later : c = (i.chain.offer block).2 := by
    cases known : i.imported.contains block.hash with
    | true => simp [answer?, known] at said
    | false => simp [c, chain_importBlock, known]
  have best : (i.chain.offer block).1 = .importedBest := by
    cases known : i.imported.contains block.hash <;> simp_all [answer?]
  have sound : Chain.Ledger genesis c := (ledger.steps (steps_importBlock i summary block)).1
  obtain ⟨weight, recorded, heavier⟩ := ledger.heavier_of_importedBest best
  rw [← later] at recorded
  exact ⟨weight, recorded, heavier, sound.best_heaviest _ _ recorded⟩

/-- What becomes the best block in an import is heavier than the best one before the import. -/
theorem risen_heavier (ledger : Chain.Ledger genesis i.chain) (summary : ImportSummary) :
    ∀ block ∈ i.risen blocks, ∃ weight,
      (blocks.foldl importBlock (i, summary)).1.chain.total? block.hash = some weight ∧
        i.chain.total < weight := by
  induction blocks generalizing i summary with
  | nil => exact fun _ member => absurd member List.not_mem_nil
  | cons first rest ih =>
    have grown := ledger.steps (steps_importBlock i summary first)
    have kept := (grown.1.steps (steps_foldl_importBlock _ (importBlock (i, summary) first).2 rest)).2
    have later := ih grown.1 (importBlock (i, summary) first).2
    rw [risen, ← importBlock_fst i summary]
    intro block member
    have behind (inside : block ∈ (importBlock (i, summary) first).1.risen rest) :
        ∃ weight, ((first :: rest).foldl importBlock (i, summary)).1.chain.total? block.hash =
          some weight ∧ i.chain.total < weight := by
      obtain ⟨weight, recorded, heavier⟩ := later block inside
      exact ⟨weight, recorded, Std.lt_of_le_of_lt grown.2.total_le heavier⟩
    split at member
    · rename_i said
      rcases List.mem_cons.1 member with rfl | inside
      · obtain ⟨weight, recorded, heavier, -⟩ := weight_of_answer ledger summary said
        exact ⟨weight, kept.totals_kept _ _ recorded, heavier⟩
      · exact behind inside
    · exact behind member

/-- Of the blocks that become the best one, each is heavier than those before it. -/
theorem risen_pairwise (ledger : Chain.Ledger genesis i.chain) (summary : ImportSummary) :
    (i.risen blocks).Pairwise
      (blocks.foldl importBlock (i, summary)).1.chain.Lighter := by
  induction blocks generalizing i summary with
  | nil => exact .nil
  | cons first rest ih =>
    have grown := ledger.steps (steps_importBlock i summary first)
    have kept := (grown.1.steps (steps_foldl_importBlock _ (importBlock (i, summary) first).2 rest)).2
    have later := ih grown.1 (importBlock (i, summary) first).2
    rw [risen, ← importBlock_fst i summary]
    split
    · rename_i said
      refine .cons ?_ later
      intro other inside
      obtain ⟨less, recorded, -, bound⟩ := weight_of_answer ledger summary said
      obtain ⟨more, found, heavier⟩ :=
        risen_heavier grown.1 (importBlock (i, summary) first).2 other inside
      exact ⟨less, more, kept.totals_kept _ _ recorded, found, Std.lt_of_le_of_lt bound heavier⟩
    · exact later

/-- Whatever was delivered before and whatever the cache holds, the summary of an import gives no
number exactly if no block of the batch became the best one, and otherwise that of the last one
that did. This is the heaviest of them. Its number is the highest exactly if none of the others,
which are lighter, has a higher one. -/
theorem best_of_batch (genesis : Block) (config : ChainConfig) (deliveries : List Delivery)
    (imported : Recency Hash Unit) (metrics : Metrics) (blocks : List Block) :
    let i : Intake := ⟨.history genesis config deliveries, imported, metrics⟩
    let chain := (i.importBlocks blocks).1.chain
    let best := (i.importBlocks blocks).2.best
    (i.risen blocks).Sublist blocks ∧
    (∀ block ∈ i.risen blocks, ∃ weight, chain.total? block.hash = some weight ∧
      i.chain.total < weight) ∧
    (i.risen blocks).Pairwise chain.Lighter ∧
    (best = none ↔ i.risen blocks = []) ∧
    best = (i.risen blocks).getLast?.map Block.number ∧
    (best.map UInt64.toNat = ((i.risen blocks).map fun block => block.number.toNat).max? ↔
      ∀ number ∈ best, ∀ block ∈ i.risen blocks, block.number ≤ number) := by
  intro i chain best
  have ledger : Chain.Ledger genesis i.chain := Chain.ledger_history genesis config deliveries
  have last : best = (i.risen blocks).getLast?.map Block.number := best_importBlocks i blocks
  refine ⟨risen_sublist i blocks, risen_heavier ledger .zero, risen_pairwise ledger .zero, ?_,
    last, ?_⟩
  · rw [last, Option.map_eq_none_iff, List.getLast?_eq_none_iff]
  · cases shown : best with
    | none =>
      rw [shown, eq_comm, Option.map_eq_none_iff, List.getLast?_eq_none_iff] at last
      simp [last]
    | some number =>
      rw [shown, eq_comm, Option.map_eq_some_iff] at last
      obtain ⟨block, final, rfl⟩ := last
      have listed : block.number.toNat ∈ (i.risen blocks).map fun block => block.number.toNat :=
        List.mem_map.2 ⟨block, List.mem_of_getLast? final, rfl⟩
      rw [Option.map_some, eq_comm, List.max?_eq_some_iff]
      simp [listed, UInt64.le_iff_toNat_le]

end Intake

namespace Chain.Fork

theorem hash_ne {left right : Block} (here : left ∈ [start, second, first, heavy])
    (there : right ∈ [start, second, first, heavy]) (differ : left ≠ right) :
    left.hash ≠ right.hash :=
  fun same => differ (eq_of_hash here there same)

theorem first_ne_heavy : first ≠ heavy := by
  intro same
  have difficulty := congrArg (fun block : Block => block.header.difficulty) same
  exact absurd difficulty (by decide)

theorem risen_of_fork {c : Chain} (ledger : Ledger start c)
    (grown : c = (Chain.new start {}).attach first 1) :
    (Intake.mk c (.new 1) .new).risen [second, heavy] = [second, heavy] := by
  have origin := ledger_new start {}
  have fresh : (Chain.new start {}).blocks.get? first.hash = none := absent (by simp) (by decide)
  have empty : c.pending = .empty := by
    rw [grown, pending_attach]
    rfl
  have weight : c.total = 1 := by
    rw [grown, origin.total_attach fresh, total_new, if_pos (by decide)]
  -- the second block is heavier than the first one, which is the best one so far
  have fits : c.Fits second first 1 := by
    refine ⟨?_, ?_, ?_, number_child first 1⟩
    · rw [grown, blocks_attach, Table.get?_insert,
        if_neg (hash_ne (by simp) (by simp) (by decide))]
      exact absent (by simp) (by decide)
    · rw [grown]
      exact get?_attach_self _ _ _
    · rw [grown, totals_attach]
      exact (Table.get?_insert _ _ _ _).trans (if_pos rfl)
  have one := ledger.offer_heavier fits (by rw [weight]; decide) (by rw [empty]; rfl)
  have sound := ledger.attach fits
  have sum : 1 + second.header.difficulty = 2 := rfl
  rw [sum] at one sound
  have total : (c.attach second 2).total = 2 := by
    rw [ledger.total_attach fits.fresh, weight, if_pos (by decide)]
  -- the heavy block is heavier than both together
  have apart : (c.attach second 2).Fits heavy start 0 := by
    refine ⟨?_, sound.genesis_stored, sound.genesis_total, number_child start 10⟩
    rw [blocks_attach, Table.get?_insert, if_neg (hash_ne (by simp) (by simp) (by decide)), grown,
      blocks_attach, Table.get?_insert, if_neg (hash_ne (by simp) (by simp) first_ne_heavy)]
    exact absent (by simp) (by decide)
  have two := sound.offer_heavier apart (by rw [total]; decide)
    (by rw [pending_attach, empty]; rfl)
  let i : Intake := ⟨c, .new 1, .new⟩
  let j := (Intake.importBlock (i, .zero) second).1
  have unseen : ¬ i.imported.contains second.hash = true := Bool.false_ne_true
  have next : j.chain = c.attach second 2 := by
    rw [Intake.chain_importBlock, if_neg unseen, one]
  have noted : j.imported.contains heavy.hash = false := by
    refine Bool.eq_false_iff.2 fun known => ?_
    have entered : j.imported = i.imported.insert second.hash () := by
      simp only [j, Intake.importBlock]
      rw [if_neg unseen, one]
      rfl
    rw [entered] at known
    rcases Recency.contains_insert known with same | old
    · exact hash_ne (by simp) (by simp) (by decide) same
    · cases old
  have rises : i.answer? second = some .importedBest := by
    rw [Intake.answer?, one]
    rfl
  have rises_too : j.answer? heavy = some .importedBest := by
    rw [Intake.answer?, next, two, noted, if_neg Bool.false_ne_true]
  rw [Intake.risen, if_pos rises, Intake.risen, if_pos rises_too, Intake.risen]

/-- On one side of a fork there are two blocks, and then the other side with its single block
becomes heavier. -/
theorem best_below_highest :
    let i : Intake := ⟨history start {} [.block first], .new 1, .new⟩
    second ∈ i.risen [second, heavy] ∧ second.number = 2 ∧
      (i.importBlocks [second, heavy]).2.best = some 1 := by
  intro i
  have origin := ledger_new start {}
  have fresh : (Chain.new start {}).blocks.get? first.hash = none := absent (by simp) (by decide)
  have fits : (Chain.new start {}).Fits first start start.header.difficulty :=
    ⟨fresh, origin.genesis_stored, origin.genesis_total, rfl⟩
  have grown : history start {} [.block first] = (Chain.new start {}).attach first 1 := by
    rw [history_block, origin.offer_fits fits rfl]
    rfl
  have risen : i.risen [second, heavy] = [second, heavy] :=
    risen_of_fork (ledger_history start {} [.block first]) grown
  refine ⟨?_, rfl, ?_⟩
  · rw [risen]
    exact List.mem_cons_self
  · rw [Intake.best_importBlocks, risen]
    rfl

end Chain.Fork

end BlockSync
