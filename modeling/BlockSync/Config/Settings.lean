import BlockSync.Config

/-! The settings in force, by the names that the configuration file uses. -/
namespace BlockSync

inductive Setting where
  | text (value : String)
  | number (value : Nat)
  | flag (value : Bool)
  | texts (values : List String)
  | absent
  deriving DecidableEq, Repr

namespace Setting

/-- As the configuration file has it. -/
def written : Setting → String
  | text value => Text.quote value
  | number value => value.repr
  | flag value => toString value
  | texts values => "[" ++ ", ".intercalate (values.map Text.quote) ++ "]"
  | absent => "null"

end Setting

abbrev Settings := List (String × Setting)

def NetworkConfig.settings (c : NetworkConfig) : Settings :=
  [("listen_address", .text c.listenAddress.text), ("port", .number c.port.toNat),
    ("chain_id", .number c.chainId.toNat), ("node_id", c.nodeId.elim .absent .text),
    ("revision", .text c.revision), ("boot_nodes", .texts c.bootNodes),
    ("max_active_nodes", .number c.maxActiveNodes), ("max_temp_nodes", .number c.maxTempNodes),
    ("seeds_only", .flag c.seedsOnly), ("error_tolerance", .number c.errorTolerance.toNat),
    ("send_queue_capacity", .number c.sendQueueCapacity),
    ("receive_queue_capacity", .number c.receiveQueueCapacity),
    ("offer_timeout_ms", .number (c.offerTimeout / Duration.milliseconds 1)),
    ("receive_workers", c.receiveWorkers.elim .absent .number)]

def SyncConfig.settings (c : SyncConfig) : Settings :=
  [("show_status", .flag c.showStatus),
    ("show_statistics", .texts (c.showStatistics.map StatisticsKind.name)),
    ("max_active_peers", .number c.maxActivePeers)]

def MetricsConfig.settings (c : MetricsConfig) : Settings :=
  [("enabled", .flag c.enabled), ("metrics_address", .text c.address.text),
    ("metrics_port", .number c.port.toNat)]

def Settings.text (s : Settings) : String :=
  String.join (s.map fun (name, value) => "  " ++ name ++ ": " ++ value.written ++ "\n")

def NodeConfig.text (c : NodeConfig) : String :=
  "p2p:\n" ++ Settings.text c.network.settings ++ "sync:\n" ++ Settings.text c.sync.settings ++
    "metrics:\n" ++ Settings.text c.metrics.settings

end BlockSync
