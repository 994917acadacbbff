import BlockSync.Decimal.Fixed
import BlockSync.Statistics
import BlockSync.Statistics.Kind
import BlockSync.Text.Column

/-! Tables of the statistics. Peers are ranked by their count, the greatest first,
and peers with the same count by their display id. -/
namespace BlockSync.Statistics

def topPeers : Nat := 10

def banner (title : String) : String :=
  "\n" ++ Text.ruled 72 (" " ++ title ++ " ") ++ "\n"

def row (cells : List String) : String :=
  String.join (cells.map fun cell => " " ++ cell) ++ "\n"

def countRow (width : Nat) (peer : String) (cells : List String) : String :=
  row (Text.alignLeft 8 peer :: cells.map (Text.alignRight width))

def ranked {α : Type} (key : α → Nat) (rows : List (String × α)) : List (String × α) :=
  rows.mergeSort fun a b =>
    decide (key b.2 < key a.2) || (key a.2 == key b.2 && decide (a.1 ≤ b.1))

/-- A line for each peer below a line that names the columns. -/
def table {α : Type} (title : String) (width : Nat) (columns : List String)
    (cells : α → List String) (rows : List (String × α)) : String :=
  banner title ++ countRow width "peer" columns ++
    String.join (rows.map fun (peer, counts) => countRow width peer (cells counts))

def requestCells (counts : PerKind Nat) : List String :=
  [counts.total, counts.status, counts.headers, counts.bodies].map toString

def blockCells (counts : BlockCounts) : List String :=
  [counts.imported, counts.stored, counts.ignored].map toString

def requestReport (s : Statistics) : String :=
  table "sync-requests" 8 ["total", "status", "headers", "bodies"] requestCells
    (ranked PerKind.total s.requests.entries)

def seedReport (s : Statistics) : String :=
  table "sync-top-seeds" 10 ["imported", "stored", "ignored"] blockCells
    ((ranked (·.imported.toNat) s.blocks.entries).take topPeers)

def leechReport (s : Statistics) : String :=
  table "sync-top-leeches" 10 ["served"] (fun served => [toString served])
    ((ranked UInt64.toNat s.served.entries).take topPeers)

/-- A line for each kind that was answered at all, the average in milliseconds. -/
def responseRows (peer : String) (times : PerKind ResponseTimes) : String :=
  String.join (RequestKind.all.map fun kind =>
    let t := times.get kind
    match t.average? with
    | none => ""
    | some average =>
      row [Text.alignLeft 8 peer, Text.alignLeft 8 kind.name, Text.alignRight 8 (toString t.count),
        Text.alignRight 12 (Decimal.fixed 2 (Duration.inSeconds average * 1000.0))])

/-- Peers most recently heard of first, then all peers together. -/
def responseReport (s : Statistics) : String :=
  let overall := s.responses.entries.foldl (fun (sum : PerKind ResponseTimes) (_, times) =>
    RequestKind.all.foldl (fun sum kind => sum.modify kind (·.add (times.get kind))) sum)
    (.const .zero)
  banner "sync-responses" ++
    row [Text.alignLeft 8 "peer", Text.alignLeft 8 "type", Text.alignRight 8 "count",
      Text.alignRight 12 "avg (ms)"] ++
    String.join (s.responses.entries.map fun (peer, times) => responseRows peer times) ++
    responseRows "all" overall

/-- What the host tells about itself; each line names one thing. -/
structure SystemInfo where
  os : String
  cpus : Nat
  usedMemory : Nat
  totalMemory : Nat
  uptime : Nat

def SystemInfo.unknown : SystemInfo := ⟨"Unknown", 1, 0, 0, 0⟩

def SystemInfo.report (i : SystemInfo) : String :=
  let mebibytes (n : Nat) := toString (n / (1024 * 1024))
  banner "sync-system-info" ++ " os: " ++ i.os ++ "\n cpus: " ++ toString i.cpus ++
    "\n memory: " ++ mebibytes i.usedMemory ++ " / " ++ mebibytes i.totalMemory ++
    " MiB\n uptime: " ++ toString i.uptime ++ " s\n"

def report (s : Statistics) (system : SystemInfo) : StatisticsKind → String
  | .requests => s.requestReport
  | .seeds => s.seedReport
  | .leeches => s.leechReport
  | .responses => s.responseReport
  | .systemInfo => system.report

end BlockSync.Statistics
