import BlockSync.Proofs.Sync.Runs
import BlockSync.Proofs.Sync.Served

/-! The import of blocks that follow on a stored one. As long as a hash means one header,
each of them finds the one before it stored and is stored itself, whether the cache knows
it, a drain was first or it is offered. Each is heavier than what it follows on, if the
difficulties are positive and no sum wraps. -/
namespace BlockSync

variable {genesis tip : Block} {hash : Hash} {number : UInt64} {blocks : List Block}

/-- Links with positive difficulties lead to heavier blocks. -/
theorem Chain.Ledger.heavier_of_follows {c : Chain} {weight : Difficulty} (h : Ledger genesis c)
    (start : genesis.number = 0) (base : c.totals.get? hash = some weight)
    (follows : Follows hash number blocks)
    (stored : ∀ block ∈ blocks, c.blocks.get? block.hash = some block)
    (positive : ∀ block ∈ blocks, 1 ≤ block.header.difficulty)
    (unwrapped : ∀ block ∈ blocks, ∀ total, c.totals.get? block.parentHash = some total →
      total.toNat + block.header.difficulty.toNat < 2 ^ 256) :
    ∀ block ∈ blocks, ∃ total, c.totals.get? block.hash = some total ∧ weight < total := by
  induction blocks generalizing hash number weight with
  | nil => exact fun _ member => absurd member List.not_mem_nil
  | cons first rest ih =>
    obtain ⟨link, count, later⟩ := follows
    have here := stored first List.mem_cons_self
    have apart : first.hash ≠ genesis.hash := by
      intro same
      rw [same, h.genesis_stored, Option.some.injEq] at here
      rw [← here, start, UInt64.toNat_zero] at count
      omega
    obtain ⟨-, total, -, -, recorded, sum⟩ := h.extends_parent _ _ here apart
    have bounded := unwrapped first List.mem_cons_self total recorded
    rw [link, base, Option.some.injEq] at recorded
    subst recorded
    have heavier : weight < weight + first.header.difficulty :=
      (Chain.lt_add_iff (Std.lt_of_lt_of_le (by decide) (positive first List.mem_cons_self))).2
        bounded
    rintro block (_ | ⟨_, member⟩)
    · exact ⟨_, sum, heavier⟩
    · obtain ⟨total, found, above⟩ := ih sum later
        (fun other inside => stored other (List.mem_cons_of_mem _ inside))
        (fun other inside => positive other (List.mem_cons_of_mem _ inside))
        (fun other inside => unwrapped other (List.mem_cons_of_mem _ inside)) block member
      exact ⟨total, found, Std.lt_trans heavier above⟩

namespace Intake

variable {i : Intake} {handed : Block → Prop}

theorem chain_importBlock (i : Intake) (summary : ImportSummary) (block : Block) :
    (importBlock (i, summary) block).1.chain =
      if i.imported.contains block.hash then i.chain else (i.chain.offer block).2 := by
  unfold importBlock
  dsimp only
  split <;> rfl

theorem Sound.importBlock_spec (h : Sound genesis i) (origin : Chain.Origin genesis handed i.chain)
    (summary : ImportSummary) {block : Block} (member : handed block)
    (base : i.chain.blocks.get? block.parentHash = some tip)
    (next : block.number = tip.number + 1) :
    let j := (Intake.importBlock (i, summary) block).1
    Chain.Origin genesis handed j.chain ∧ Chain.Extends i.chain j.chain ∧
      ∃ other, j.chain.blocks.get? block.hash = some other := by
  dsimp only
  rw [chain_importBlock]
  split
  · rename_i known
    exact ⟨origin, .refl _, h.cached _ known⟩
  · have offered := h.waits.offer h.ledger block
    exact ⟨offered.origin handed origin member, (h.ledger.steps (Chain.steps_offer _ _)).2,
      h.ledger.stored_of_offer block (.inr (.inr ⟨tip, base, next⟩))⟩

/-- Blocks that follow on a stored one are all stored after the import of those that are not
known, as long as the known ones are stored. -/
theorem Sound.import_follows (h : Sound genesis i) (origin : Chain.Origin genesis handed i.chain)
    (summary : ImportSummary) (members : ∀ block ∈ blocks, handed block)
    (alike : ∀ block ∈ blocks, ∀ other, other = genesis ∨ handed other →
      other.hash = block.hash → other.header = block.header)
    (base : i.chain.blocks.get? hash = some tip) (place : tip.number = number)
    (follows : Follows hash number blocks) (known : Hash → Bool)
    (held : ∀ block ∈ blocks, known block.hash = true →
      ∃ other, i.chain.blocks.get? block.hash = some other) :
    let fresh := blocks.filter fun block => !known block.hash
    let j := (fresh.foldl Intake.importBlock (i, summary)).1
    Sound genesis j ∧ Chain.Origin genesis handed j.chain ∧ Chain.Extends i.chain j.chain ∧
      ∀ block ∈ blocks, ∃ other, j.chain.blocks.get? block.hash = some other := by
  induction blocks generalizing i hash number tip summary with
  | nil => exact ⟨h, origin, .refl _, fun _ member => absurd member List.not_mem_nil⟩
  | cons first rest ih =>
    obtain ⟨link, count, later⟩ := follows
    have next : first.number = tip.number + 1 := by
      have bound := first.number.toNat_lt
      rw [place]
      exact UInt64.toNat_inj.1 (count.trans (toNat_add_one (by omega)).symm)
    rw [← link] at base
    -- known or imported now, the first block is stored, and the others are imported after it
    obtain ⟨j, summary', folded, sound, traced, grown, other, stored⟩ : ∃ j summary',
        ((first :: rest).filter fun block => !known block.hash).foldl Intake.importBlock
          (i, summary) =
            (rest.filter fun block => !known block.hash).foldl Intake.importBlock (j, summary') ∧
        Sound genesis j ∧ Chain.Origin genesis handed j.chain ∧ Chain.Extends i.chain j.chain ∧
          ∃ other, j.chain.blocks.get? first.hash = some other := by
      cases fresh : known first.hash with
      | true =>
        refine ⟨i, summary, ?_, h, origin, .refl _, held first List.mem_cons_self fresh⟩
        simp [fresh]
      | false =>
        refine ⟨(Intake.importBlock (i, summary) first).1,
          (Intake.importBlock (i, summary) first).2, ?_, h.importBlock summary first,
          h.importBlock_spec origin summary (members first List.mem_cons_self) base next⟩
        simp [fresh]
    -- what is stored under the hash may be another block, but it has the same header
    have same : other.header = first.header :=
      alike first List.mem_cons_self other (traced.stored _ _ stored)
        (sound.ledger.own_hash _ _ stored)
    obtain ⟨last, came, further, rests⟩ := ih sound traced summary'
      (fun block member => members block (List.mem_cons_of_mem _ member))
      (fun block member => alike block (List.mem_cons_of_mem _ member))
      stored (congrArg Header.number same) later (fun block member listed => by
        obtain ⟨older, before⟩ := held block (List.mem_cons_of_mem _ member) listed
        exact ⟨older, grown.blocks_kept _ _ before⟩)
    dsimp only
    rw [folded]
    refine ⟨last, came, grown.trans further, ?_⟩
    rintro block (_ | ⟨_, member⟩)
    · exact ⟨other, further.blocks_kept _ _ stored⟩
    · exact rests block member

/-- The import of blocks that are stored, or whose parents are not, connects nothing. -/
theorem Sound.import_orphans (h : Sound genesis i) (summary : ImportSummary)
    (idle : ∀ block ∈ blocks, (∃ other, i.chain.blocks.get? block.hash = some other) ∨
      i.chain.blocks.get? block.parentHash = none) :
    (blocks.foldl Intake.importBlock (i, summary)).1.chain.blocks = i.chain.blocks := by
  induction blocks generalizing i summary with
  | nil => rfl
  | cons first rest ih =>
    have same : (Intake.importBlock (i, summary) first).1.chain.blocks = i.chain.blocks := by
      rw [chain_importBlock]
      split
      · rfl
      · exact h.ledger.blocks_offer_of_idle (idle first List.mem_cons_self)
    rw [List.foldl_cons]
    refine (ih (h.importBlock summary first) _ ?_).trans same
    intro block member
    rw [same]
    exact idle block (List.mem_cons_of_mem _ member)

end Intake

end BlockSync
