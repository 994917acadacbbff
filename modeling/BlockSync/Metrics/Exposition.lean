import BlockSync.Metrics
import BlockSync.Decimal.Shortest

/-! The text form of the metrics: families in alphabetical order, each under a help
and a type line, samples by label. A family without samples is left out, and all
values are written as doubles. -/
namespace BlockSync

structure Sample where
  name : String
  label : Option (String × String)
  value : Float

namespace Sample

def escape (value : String) : String :=
  String.ofList (value.toList.flatMap fun c =>
    if c = '\\' then ['\\', '\\'] else if c = '\n' then ['\\', 'n']
    else if c = '\x22' then ['\\', '\x22'] else [c])

def line (s : Sample) : String :=
  let label := match s.label with
    | some (name, value) => "\x7b" ++ name ++ "=\"" ++ escape value ++ "\"\x7d"
    | none => ""
  s.name ++ label ++ " " ++ Decimal.text s.value ++ "\n"

end Sample

structure Family where
  name : String
  help : String
  kind : String
  samples : List Sample

namespace Family

def gauge (name help : String) (value : Int) : Family :=
  ⟨name, help, "gauge", [⟨name, none, Float.ofInt value⟩]⟩

def counter (name help : String) (value : Nat) : Family :=
  ⟨name, help, "counter", [⟨name, none, Float.ofNat value⟩]⟩

def counters (name help label : String) (c : Counters) : Family :=
  let rows := c.counts.entries.mergeSort fun a b => decide (a.1 ≤ b.1)
  ⟨name, help, "counter", rows.map fun (value, n) => ⟨name, some (label, value), Float.ofNat n⟩⟩

def histogram (name help : String) (h : Histogram) : Family :=
  let bucket (bound : String) (n : Nat) : Sample :=
    ⟨name ++ "_bucket", some ("le", bound), Float.ofNat n⟩
  ⟨name, help, "histogram",
    h.buckets.map (fun (bound, n) => bucket (Decimal.text bound) n) ++
      [bucket "+Inf" h.count, ⟨name ++ "_sum", none, h.sum⟩,
        ⟨name ++ "_count", none, Float.ofNat h.count⟩]⟩

def text (f : Family) : String :=
  if f.samples.isEmpty then ""
  else "# HELP " ++ f.name ++ " " ++ f.help ++ "\n# TYPE " ++ f.name ++ " " ++ f.kind ++ "\n" ++
    String.join (f.samples.map Sample.line)

end Family

namespace Metrics

def families (m : Metrics) : List Family :=
  [.counters "p2p_dropped_messages_total" "Messages dropped because a queue was full" "queue" m.dropped,
    .counter "p2p_peer_bans_total" "Peers banned for protocol errors" m.bans,
    .gauge "p2p_peers_connected" "Number of active peers" m.peers,
    .histogram "sync_import_batch_time_seconds" "Time taken to import one block batch" m.batchTime,
    .counters "sync_imported_blocks_total" "Blocks handed to the chain, by import result" "result"
      m.imported,
    .gauge "sync_local_best_block" "Local best block number" m.localBest,
    .gauge "sync_network_best_block" "Best block number claimed by the network" m.networkBest,
    .counters "sync_rejected_header_batches_total" "Header batches discarded, by reason" "reason"
      m.rejected]

def text (m : Metrics) : String :=
  String.join (m.families.map Family.text)

/-- A request for a page: only `/metrics` exists, whatever query follows, and it
can only be read. -/
structure Response where
  status : String
  contentType : Option String
  body : String
  deriving DecidableEq, Repr

def respond (m : Metrics) (method target : String) : Response :=
  if target.toList.takeWhile (· ≠ '?') ≠ "/metrics".toList then ⟨"404 Not Found", none, ""⟩
  else if method = "GET" then ⟨"200 OK", some "text/plain; charset=utf-8", m.text⟩
  else if method = "HEAD" then ⟨"200 OK", some "text/plain; charset=utf-8", ""⟩
  else ⟨"405 Method Not Allowed", none, ""⟩

end Metrics

end BlockSync
