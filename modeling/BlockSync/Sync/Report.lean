import BlockSync.Decimal.Fixed
import BlockSync.Header.Fields
import BlockSync.Statistics.Report
import BlockSync.Sync.Synchronizer

/-! The line that tells how far the synchronizer is, and the statistics it prints. -/
namespace BlockSync.Synchronizer

/-- Local and network values stand side by side. -/
def lineWith (s : Synchronizer) (rate : String) : String :=
  let claim := s.view.status.claim
  "sync-status avg-import=" ++ rate ++ " b/s td=" ++ s.chain.total.toNat.repr ++ "/" ++
    claim.totalDifficulty.toNat.repr ++ " b-num=" ++ s.chain.bestNumber.toNat.repr ++ "/" ++
    claim.bestNumber.toNat.repr ++ " b-hash=" ++ s.chain.best.prefixedText ++ "/" ++
    claim.bestHash.prefixedText

def statusLine (s : Synchronizer) : String :=
  s.lineWith (Decimal.fixed 2 (s.statistics.importRate s.now))

def reports (s : Synchronizer) (system : Statistics.SystemInfo) : List String :=
  s.config.showStatistics.map (s.statistics.report system)

end BlockSync.Synchronizer
