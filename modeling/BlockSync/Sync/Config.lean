import BlockSync.Statistics.Kind

/-! The settings of the synchronizer. -/
namespace BlockSync

structure SyncConfig where
  showStatus : Bool := false
  /-- The statistics to print with the status line, in the order of their kinds. -/
  showStatistics : List StatisticsKind := []
  /-- Bounds every table that is kept per peer. -/
  maxActivePeers : Nat := 128
  deriving Repr

def SyncConfig.shows (c : SyncConfig) (kind : StatisticsKind) : Bool :=
  c.showStatistics.contains kind

end BlockSync
