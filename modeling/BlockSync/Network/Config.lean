import BlockSync.BootNode
import BlockSync.Text.Quoted
import BlockSync.Time

/-! The settings of the transport. -/
namespace BlockSync

structure NetworkConfig where
  listenAddress : Ip := .v4 0
  port : UInt16 := 30303
  chainId : UInt32 := 256
  /-- Hexadecimal; a random one is drawn if there is none. -/
  nodeId : Option String := none
  revision : String := "sync-node/0.1.0"
  /-- Addresses of boot nodes, and names of files that list some. -/
  bootNodes : List String := []
  maxActiveNodes : Nat := 128
  maxTempNodes : Nat := 128
  seedsOnly : Bool := false
  errorTolerance : UInt32 := 50
  sendQueueCapacity : Nat := 10000
  receiveQueueCapacity : Nat := 50000
  offerTimeout : Duration := .milliseconds 100
  receiveWorkers : Option Nat := none
  deriving Repr

structure InvalidNodeId where
  text : String
  cause : HexError
  deriving Repr

def InvalidNodeId.message (e : InvalidNodeId) : String :=
  "invalid node id " ++ Text.quote e.text ++ ": " ++ e.cause.message

namespace NetworkConfig

def listenSocket (c : NetworkConfig) : SocketAddress :=
  .new c.listenAddress c.port

def identity (c : NetworkConfig) : Except InvalidNodeId (Option NodeId) :=
  match c.nodeId with
  | none => .ok none
  | some text =>
    match NodeId.ofText text with
    | .ok id => .ok (some id)
    | .error cause => .error ⟨text, cause⟩

/-- The boot nodes that the settings name. What is no address is a file, which
counts as empty if it cannot be read as a list; entries that are no addresses are
passed over. -/
def bootNodesFrom (c : NetworkConfig) (listOf : String → Option (List String)) : List BootNode :=
  c.bootNodes.flatMap fun argument =>
    let entries := if BootNode.hasScheme argument then [argument] else (listOf argument).getD []
    entries.filterMap fun entry => (BootNode.ofText entry).toOption

end NetworkConfig

end BlockSync
