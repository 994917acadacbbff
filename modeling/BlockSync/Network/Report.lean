import BlockSync.Network.NodeTable
import BlockSync.Text.Column

/-! The node table as text, one row per active node. -/
namespace BlockSync.NodeTable
open Text

def row (cells : List String) : String :=
  match cells with
  | [id, best, difficulty, latency, direction, address, seed] =>
    " " ++ " ".intercalate [alignLeft 8 id, alignRight 10 best, alignRight 20 difficulty,
      alignRight 8 latency, alignLeft 9 direction, alignLeft 22 address, alignLeft 5 seed] ++ "\n"
  | _ => ""

def peerRow (t : NodeTable) (p : PeerInfo) : String :=
  row [p.displayId, p.chain.bestNumber.toNat.repr, p.chain.totalDifficulty.toNat.repr,
    p.latency.toNat.repr, p.direction.text, p.address.text, toString (t.isSeed p.address.ip)]

def summary (t : NodeTable) (chain : ChainInfo) : String :=
  " self best=" ++ chain.bestNumber.toNat.repr ++ " td=" ++ chain.totalDifficulty.toNat.repr ++
    " active=" ++ t.active.size.repr ++ " temp=" ++ t.waiting.length.repr ++
    " banned=" ++ t.banned.size.repr

/-- The summary stands beside the host's own chain head. -/
def report (t : NodeTable) (chain : ChainInfo) : String :=
  "\n" ++ ruled 94 " p2p-status " ++ "\n" ++ t.summary chain ++ "\n" ++
    row ["id", "best", "td", "latency", "direction", "address", "seed"] ++
    String.join (t.peers.map t.peerRow)

end BlockSync.NodeTable
