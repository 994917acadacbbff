import BlockSync.Layout.Block

/-! What a node tells about its chain: the head it holds, and the fuller status
that it sends when asked. -/
namespace BlockSync

structure ChainInfo where
  bestNumber : UInt64
  bestHash : Hash
  totalDifficulty : Difficulty
  deriving DecidableEq, Repr

def ChainInfo.empty : ChainInfo := ⟨0, .zero, 0⟩

structure PeerStatus extends chain : ChainInfo where
  genesisHash : Hash
  apiVersion : UInt8
  peerCount : UInt16
  pendingTxCount : UInt32
  latency : UInt32
  deriving DecidableEq, Repr

def Layout.peerStatus : Layout PeerStatus :=
  (u64.pair (hash.pair (word.pair (hash.pair (u8.pair (u16.pair (u32.pair u32))))))).convert
    (fun (number, best, total, genesis, version, peers, pending, latency) =>
      .ok ⟨⟨number, best, total⟩, genesis, version, peers, pending, latency⟩)
    fun s => (s.bestNumber, s.bestHash, s.totalDifficulty, s.genesisHash, s.apiVersion,
      s.peerCount, s.pendingTxCount, s.latency)

end BlockSync
