import BlockSync.Network.Config
import BlockSync.Sync.Config
import BlockSync.Yaml.Reader

/-! The configuration file of a node: three sections of fields, each of which may be
left out. A field that is there twice, or whose value does not fit, spoils the file;
fields of other names are passed over. -/
namespace BlockSync

structure MetricsConfig where
  enabled : Bool := false
  address : Ip := .v4 0x7f000001
  port : UInt16 := 9464
  deriving Repr

def MetricsConfig.socket (c : MetricsConfig) : SocketAddress :=
  .new c.address c.port

structure NodeConfig where
  network : NetworkConfig := {}
  sync : SyncConfig := {}
  metrics : MetricsConfig := {}
  deriving Repr

namespace Yaml

def ip? (y : Yaml) : Option Ip :=
  y.text?.bind Ip.ofText?

def u16? (y : Yaml) : Option UInt16 :=
  (y.number? UInt16.size).map UInt16.ofNat

def u32? (y : Yaml) : Option UInt32 :=
  (y.number? UInt32.size).map UInt32.ofNat

/-- A number of things, or of milliseconds. -/
def count? : Yaml → Option Nat :=
  number? UInt64.size

def texts? (y : Yaml) : Option (List String) :=
  y.items?.bind fun items => items.mapM text?

end Yaml

namespace NetworkConfig

def ofYaml? (y : Yaml) : Option NetworkConfig := do
  let fields ← y.fields?
  let dflt : NetworkConfig := {}
  return {
    listenAddress := ← Yaml.field? fields "listen_address" dflt.listenAddress Yaml.ip?
    port := ← Yaml.field? fields "port" dflt.port Yaml.u16?
    chainId := ← Yaml.field? fields "chain_id" dflt.chainId Yaml.u32?
    nodeId := ← Yaml.field? fields "node_id" dflt.nodeId (Yaml.optional? Yaml.text?)
    revision := ← Yaml.field? fields "revision" dflt.revision Yaml.text?
    bootNodes := ← Yaml.field? fields "boot_nodes" dflt.bootNodes Yaml.texts?
    maxActiveNodes := ← Yaml.field? fields "max_active_nodes" dflt.maxActiveNodes Yaml.count?
    maxTempNodes := ← Yaml.field? fields "max_temp_nodes" dflt.maxTempNodes Yaml.count?
    seedsOnly := ← Yaml.field? fields "seeds_only" dflt.seedsOnly Yaml.flag?
    errorTolerance := ← Yaml.field? fields "error_tolerance" dflt.errorTolerance Yaml.u32?
    sendQueueCapacity := ← Yaml.field? fields "send_queue_capacity" dflt.sendQueueCapacity Yaml.count?
    receiveQueueCapacity :=
      ← Yaml.field? fields "receive_queue_capacity" dflt.receiveQueueCapacity Yaml.count?
    offerTimeout := ← Yaml.field? fields "offer_timeout_ms" dflt.offerTimeout
      fun y => y.count?.map Duration.milliseconds
    receiveWorkers :=
      ← Yaml.field? fields "receive_workers" dflt.receiveWorkers (Yaml.optional? Yaml.count?) }

end NetworkConfig

namespace SyncConfig

def ofYaml? (y : Yaml) : Option SyncConfig := do
  let fields ← y.fields?
  let dflt : SyncConfig := {}
  let kinds (y : Yaml) : Option (List StatisticsKind) := do
    return StatisticsKind.ordered (← (← y.texts?).mapM StatisticsKind.ofName?)
  return {
    showStatus := ← Yaml.field? fields "show_status" dflt.showStatus Yaml.flag?
    showStatistics := ← Yaml.field? fields "show_statistics" dflt.showStatistics kinds
    maxActivePeers := ← Yaml.field? fields "max_active_peers" dflt.maxActivePeers Yaml.count? }

end SyncConfig

namespace MetricsConfig

def ofYaml? (y : Yaml) : Option MetricsConfig := do
  let fields ← y.fields?
  let dflt : MetricsConfig := {}
  return {
    enabled := ← Yaml.field? fields "enabled" dflt.enabled Yaml.flag?
    address := ← Yaml.field? fields "metrics_address" dflt.address Yaml.ip?
    port := ← Yaml.field? fields "metrics_port" dflt.port Yaml.u16? }

end MetricsConfig

namespace NodeConfig

def ofYaml? (y : Yaml) : Option NodeConfig := do
  let fields ← y.fields?
  return {
    network := ← Yaml.field? fields "p2p" {} NetworkConfig.ofYaml?
    sync := ← Yaml.field? fields "sync" {} SyncConfig.ofYaml?
    metrics := ← Yaml.field? fields "metrics" {} MetricsConfig.ofYaml? }

def ofText? (text : String) : Option NodeConfig :=
  (Yaml.ofText? text).bind ofYaml?

end NodeConfig

def bootNodeList? (text : String) : Option (List String) :=
  (Yaml.ofText? text).bind Yaml.texts?

end BlockSync
