import BlockSync.Proofs.Chain.Canonical
import BlockSync.Proofs.Sync.Course
import BlockSync.Proofs.Sync.Screening

/-! The cache of imported hashes saves work and changes nothing else. As long as it names only
blocks that the chain has stored, a block it names would be found known if it were offered, so
an import comes to the same as offering every block; and it goes on naming only stored blocks,
whatever it forgets. -/
namespace BlockSync

namespace Intake

variable {i : Intake}

/-- Offers a block, known or not, and counts the result. -/
def offerBlock (state : Chain × ImportSummary) (block : Block) : Chain × ImportSummary :=
  ((state.1.offer block).2, state.2.count block (state.1.offer block).1)

/-- With a cache that names only stored blocks, what the cache spares is offering in vain. -/
theorem importBlock_of_knows (h : i.chain.Knows i.imported) (summary : ImportSummary)
    (block : Block) :
    let next := importBlock (i, summary) block
    (next.1.chain, next.2) = offerBlock (i.chain, summary) block := by
  unfold importBlock offerBlock
  dsimp only
  split
  · rename_i held
    obtain ⟨other, stored⟩ := h _ held
    rw [Chain.offer_of_stored stored]
    rfl
  · rfl

theorem contains_importBlock (summary : ImportSummary) {block other : Block}
    (stored : i.chain.blocks.get? block.hash = some other) :
    (importBlock (i, summary) block).1.imported.contains block.hash = true := by
  unfold importBlock
  dsimp only
  split
  · assumption
  · rw [Chain.offer_of_stored stored]
    exact Recency.contains_insert_self _ _ _

theorem foldl_importBlock_of_knows (h : i.chain.Knows i.imported) (summary : ImportSummary)
    (blocks : List Block) :
    let last := blocks.foldl importBlock (i, summary)
    (last.1.chain, last.2) = blocks.foldl offerBlock (i.chain, summary) := by
  induction blocks generalizing i summary with
  | nil => rfl
  | cons block rest ih =>
    have others := ih (h.importBlock summary block) (importBlock (i, summary) block).2
    rw [List.foldl_cons, List.foldl_cons, ← importBlock_of_knows h summary block]
    exact others

end Intake

namespace Synchronizer

theorem imported_importBatch (s : Synchronizer) (displayId : String) (blocks : List Block) :
    (s.importBatch displayId blocks).2.intake.imported =
      (s.intake.importBlocks blocks).1.imported := by
  unfold importBatch
  dsimp only
  split
  · rw [intake_queueCycle]
    rfl
  · rfl

/-- After its import, the header of a stored block is not asked bodies for again. -/
theorem screen_importBatch {s : Synchronizer} {block other : Block}
    (valid : s.validate block.header = .ok ())
    (stored : s.chain.blocks.get? block.hash = some other) (displayId : String) :
    let after := (s.importBatch displayId [block]).2
    screen after.validate after.isImported [block.header] = .ok [] := by
  intro after
  have same : after.validate = s.validate :=
    (lull_runImportJob s (.batch displayId [block])).2.validate
  have known : after.isImported block.hash = true := by
    rw [isImported, imported_importBatch]
    exact Intake.contains_importBlock .zero stored
  rw [screen, screenFrom, same, valid]
  exact congrArg Except.ok (if_pos known)

/-- In every state that a synchronizer gets into, the cache names only stored blocks, and the
headers that a batch loses in the screening are those of stored blocks. Whatever chain blocks
are imported into, two caches that name only blocks stored there, of whatever capacities, lead
to the same chain and the same counts. -/
theorem cache_is_harmless (genesis : Block) :
    (∀ s, Reachable genesis s →
      (∀ hash, s.isImported hash = true →
        ∃ block, s.chain.blocks.get? hash = some block ∧ block.hash = hash) ∧
      ∀ headers fresh, screen s.validate s.isImported headers = .ok fresh →
        fresh = headers.filter (fun h => !s.isImported h.hash) ∧
        ∀ h ∈ headers, h ∉ fresh →
          ∃ block, s.chain.blocks.get? h.hash = some block ∧ block.hash = h.hash) ∧
    ∀ (chain : Chain) (cache other : Recency Hash Unit) (metrics : Metrics) (blocks : List Block),
      chain.Knows cache → chain.Knows other →
      ((Intake.mk chain cache metrics).importBlocks blocks).1.chain =
          ((Intake.mk chain other metrics).importBlocks blocks).1.chain ∧
        ((Intake.mk chain cache metrics).importBlocks blocks).2 =
          ((Intake.mk chain other metrics).importBlocks blocks).2 := by
  constructor
  · intro s reachable
    have sound := sound_of_reachable reachable
    have named (hash : Hash) (held : s.isImported hash = true) :
        ∃ block, s.chain.blocks.get? hash = some block ∧ block.hash = hash := by
      obtain ⟨block, stored⟩ := sound.cached hash held
      exact ⟨block, stored, sound.ledger.own_hash _ _ stored⟩
    refine ⟨named, ?_⟩
    intro headers fresh passed
    obtain ⟨-, left⟩ := screen_eq_ok_iff.1 passed
    refine ⟨left, ?_⟩
    intro h listed lost
    refine named h.hash (Decidable.not_not.1 fun unknown => lost ?_)
    rw [left]
    exact List.mem_filter.2 ⟨listed, by simpa using unknown⟩
  · intro chain cache other metrics blocks knows knows'
    have one := Intake.foldl_importBlock_of_knows (i := ⟨chain, cache, metrics⟩) knows
      .zero blocks
    have two := Intake.foldl_importBlock_of_knows (i := ⟨chain, other, metrics⟩) knows'
      .zero blocks
    exact Prod.mk.inj (one.trans two.symm)

end Synchronizer

namespace Chain.Fork

open Synchronizer

/-- The genesis block is imported again and then spared, and a cache of one hash that knows it
does as well as an empty one when blocks come twice. -/
theorem cache_of_start_is_harmless :
    let chain := history start {} []
    let s := ((Synchronizer.new {} (fun _ => .ok ()) chain 0).importBatch "peer" [start]).2
    let cache := (Recency.new 1).insert start.hash ()
    Reachable start s ∧
      screen s.validate s.isImported [start.header] = .ok [] ∧
      (∃ block, s.chain.blocks.get? start.hash = some block ∧ block.hash = start.hash) ∧
      chain.Knows cache ∧ chain.Knows (.new 4) ∧
      ((Intake.mk chain cache .new).importBlocks [start, first, first, second, start]).2 =
        ((Intake.mk chain (.new 4) .new).importBlocks [start, first, first, second, start]).2 := by
  intro chain s cache
  have reachable : Reachable start s := .step (.new _ _ _ _ _) (.importBatch _ _ _)
  have stored : chain.blocks.get? start.hash = some start :=
    (ledger_history start {} []).genesis_stored
  have passed : screen s.validate s.isImported [start.header] = .ok [] :=
    @screen_importBatch (.new {} (fun _ => .ok ()) chain 0) start start rfl stored "peer"
  have knows : chain.Knows cache := by
    intro hash held
    rcases Recency.contains_insert held with rfl | old
    · exact ⟨start, stored⟩
    · cases old
  have knows' : chain.Knows (.new 4) := fun hash held => by cases held
  obtain ⟨run, alike⟩ := cache_is_harmless start
  exact ⟨reachable, passed, ((run s reachable).2 _ _ passed).2 start.header List.mem_cons_self
      List.not_mem_nil,
    knows, knows', (alike chain cache (.new 4) .new _ knows knows').2⟩

end Chain.Fork

end BlockSync
