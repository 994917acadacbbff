import BlockSync.Metrics
import BlockSync.Recency

/-! Batches of blocks handed to the chain, in order, each whatever became of those
before it. Blocks whose hashes are in the cache of imported hashes are left out. -/
namespace BlockSync

/-- The chain with what is kept beside it about imports. -/
structure Intake where
  chain : Chain
  imported : Recency Hash Unit
  metrics : Metrics

structure ImportSummary where
  imported : Nat
  stored : Nat
  ignored : Nat
  /-- The number of the last block that became the best one. -/
  best : Option UInt64
  deriving DecidableEq, Repr

namespace ImportSummary

def zero : ImportSummary := ⟨0, 0, 0, none⟩

def count (s : ImportSummary) (block : Block) : ImportResult → ImportSummary
  | .importedBest => { s with imported := s.imported + 1, best := some block.number }
  | .importedNotBest => { s with imported := s.imported + 1 }
  | .storedForLater => { s with stored := s.stored + 1 }
  | .alreadyKnown | .noParent | .invalid => { s with ignored := s.ignored + 1 }

end ImportSummary

namespace Intake

def connects (result : ImportResult) : Bool :=
  result.isImported || result = .alreadyKnown

def importBlock (state : Intake × ImportSummary) (block : Block) : Intake × ImportSummary :=
  let (i, summary) := state
  let hash := block.hash
  if i.imported.contains hash then (i, { summary with ignored := summary.ignored + 1 })
  else
    let (result, chain) := i.chain.offer block
    ({ chain
       imported := if connects result then i.imported.insert hash () else i.imported
       metrics := i.metrics.noteImported result }, summary.count block result)

def importBlocks (i : Intake) (blocks : List Block) : Intake × ImportSummary :=
  blocks.foldl importBlock (i, .zero)

end Intake

end BlockSync
