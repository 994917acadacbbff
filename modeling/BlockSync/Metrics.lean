import BlockSync.Chain

/-! Counters and gauges of a running node, and a histogram of the time that import
batches take. A labelled counter appears with its first use. -/
namespace BlockSync

structure Counters where
  counts : Table String Nat

namespace Counters

def empty : Counters := ⟨.empty⟩

def get (c : Counters) (label : String) : Nat :=
  (c.counts.get? label).getD 0

def increment (c : Counters) (label : String) : Counters :=
  ⟨c.counts.insert label (c.get label + 1)⟩

theorem get_increment (c : Counters) (label other : String) :
    (c.increment label).get other = c.get other + if label = other then 1 else 0 := by
  by_cases h : label = other
  · simp [increment, get, Table.get?_insert, h]
  · simp [increment, get, Table.get?_insert, h]

end Counters

/-- For each bound how many observations were at or below it. -/
structure Histogram where
  buckets : List (Float × Nat)
  sum : Float
  count : Nat

namespace Histogram

def new (bounds : List Float) : Histogram :=
  ⟨bounds.map fun bound => (bound, 0), 0.0, 0⟩

def observe (h : Histogram) (x : Float) : Histogram :=
  { buckets := h.buckets.map fun (bound, n) => (bound, if x ≤ bound then n + 1 else n)
    sum := h.sum + x, count := h.count + 1 }

end Histogram

structure Metrics where
  peers : Int
  dropped : Counters
  bans : Nat
  imported : Counters
  rejected : Counters
  localBest : Nat
  networkBest : Nat
  batchTime : Histogram

namespace Metrics

def new : Metrics :=
  { peers := 0, dropped := .empty, bans := 0, imported := .empty, rejected := .empty
    localBest := 0, networkBest := 0
    batchTime := .new [0.005, 0.01, 0.025, 0.05, 0.1, 0.5, 1.0, 5.0] }

/-- Gauges hold signed 64-bit numbers; a greater height shows as the greatest one. -/
def height (number : UInt64) : Nat :=
  min number.toNat (UInt64.size / 2 - 1)

def setPeers (m : Metrics) (n : Int) : Metrics := { m with peers := n }

def noteDropped (m : Metrics) (queue : String) : Metrics :=
  { m with dropped := m.dropped.increment queue }

def noteBan (m : Metrics) : Metrics := { m with bans := m.bans + 1 }

def noteImported (m : Metrics) (result : ImportResult) : Metrics :=
  { m with imported := m.imported.increment result.label }

def noteRejected (m : Metrics) (reason : String) : Metrics :=
  { m with rejected := m.rejected.increment reason }

def setLocalBest (m : Metrics) (number : UInt64) : Metrics :=
  { m with localBest := height number }

def setNetworkBest (m : Metrics) (number : UInt64) : Metrics :=
  { m with networkBest := height number }

def noteBatchTime (m : Metrics) (seconds : Float) : Metrics :=
  { m with batchTime := m.batchTime.observe seconds }

end Metrics

end BlockSync
