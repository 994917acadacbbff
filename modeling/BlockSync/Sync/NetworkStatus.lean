import BlockSync.Status
import BlockSync.Time

/-! The heaviest head that any peer claims. A claim opens a window in which later
claims are not looked at; it is recorded if it is heavier than what is recorded. -/
namespace BlockSync

structure NetworkStatus where
  displayId : String
  claim : PeerStatus
  deriving DecidableEq, Repr

def NetworkStatus.empty : NetworkStatus :=
  ⟨"", ⟨.empty, .zero, 0, 0, 0, 0⟩⟩

structure NetworkView where
  window : Duration
  status : NetworkStatus
  opened : Option Instant

namespace NetworkView

def defaultWindow : Duration := .milliseconds 1000

def new (window : Duration) : NetworkView :=
  ⟨window, .empty, none⟩

def isOpen (v : NetworkView) (now : Instant) : Bool :=
  v.opened.any fun opened => now.since opened ≤ v.window

def offer (v : NetworkView) (now : Instant) (candidate : NetworkStatus) : Bool × NetworkView :=
  if v.isOpen now then (false, v)
  else if candidate.claim.totalDifficulty > v.status.claim.totalDifficulty then
    (true, { v with status := candidate, opened := some now })
  else (false, { v with opened := some now })

end NetworkView

end BlockSync
