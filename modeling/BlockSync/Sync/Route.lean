/-! Where a batch of blocks goes: into the chain, or into pending storage if it
starts far above the local head. -/
namespace BlockSync

inductive BatchRoute where
  | intake
  | pending
  deriving DecidableEq, Repr

namespace BatchRoute

def maxAhead : Nat := 100

def of (first localBest : UInt64) : BatchRoute :=
  if first.toNat > localBest.toNat + maxAhead then .pending else .intake

end BatchRoute

end BlockSync
