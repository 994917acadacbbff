import BlockSync.Sync.Synchronizer

/-! The order in which the work of the synchronizer is done. Whoever has work gets a
turn: a turn for bodies runs one request and goes to the back if more wait, a turn
for imports runs all that wait. Peers are asked for their status whenever the
synchronizer is started, and then in fixed intervals. -/
namespace BlockSync.Synchronizer

def runBodies (s : Synchronizer) : Synchronizer :=
  match s.bodyJobs.next? with
  | none => s
  | some (job, bodyJobs) =>
    let s := { s with bodyJobs }.runBodyJob job
    if s.bodyJobs.jobs.isEmpty then s else s.wake .bodies

/-- A batch may queue a cycle behind it, and a cycle queues nothing. -/
def importWork (s : Synchronizer) : Nat :=
  2 * s.importJobs.jobs.length

def runImports : Nat → Synchronizer → Synchronizer
  | 0, s => s
  | fuel + 1, s =>
    match s.importJobs.next? with
    | none => s
    | some (job, importJobs) => runImports fuel ({ s with importJobs }.runImportJob job)

def runTurn (s : Synchronizer) : Turn → Synchronizer
  | .bodies => s.runBodies
  | .imports => runImports s.importWork s
  | .status => s.askForStatus

def runTurns : Nat → Synchronizer → Synchronizer
  | 0, s => s
  | fuel + 1, s =>
    match s.turns with
    | [] => s
    | turn :: turns => runTurns fuel ({ s with turns }.runTurn turn)

def settle (s : Synchronizer) : Synchronizer :=
  runTurns (s.turns.length + s.bodyJobs.jobs.length + s.importWork) s

/-- Queues an import; when the queue is full, waits until it is not. -/
def submit (s : Synchronizer) (job : ImportJob) : Synchronizer :=
  let s := if s.importJobs.accepting && s.importJobs.isFull then s.settle else s
  match s.importJobs.push? job with
  | some importJobs => { s with importJobs }.wake .imports
  | none => s

/-- Takes in the bodies that a peer sends and queues the blocks for import. -/
def deliverBodies (s : Synchronizer) (peer : PeerId) (displayId : String) (bodies : List Bytes) :
    Synchronizer :=
  match s.takeBodies peer displayId bodies with
  | (some job, s) => s.submit job
  | (none, s) => s

def statusInterval : Duration := .seconds 2

/-- Asks the peers for their status at once and, from now on, in fixed intervals. -/
def start (s : Synchronizer) : Synchronizer :=
  { s with
    statusTimes := s.statusTimes ++ [s.clock + statusInterval], turns := s.turns ++ [.status] }

/-- Moves the clock on by a step, at the end of which work that is due is done. -/
def advance (s : Synchronizer) (step : Duration) : Synchronizer :=
  let s := { s.settle with clock := s.clock + step }
  let isDue (time : Instant) : Bool := time ≤ s.clock
  { s with
    statusTimes := s.statusTimes.map fun time => if isDue time then s.clock + statusInterval else time
    turns := s.turns ++ List.replicate (s.statusTimes.countP isDue) Turn.status }.settle

/-- Takes in no more imports, does what waits, and then takes in nothing at all. Only
the first call has an effect. -/
def shutDown (s : Synchronizer) : Synchronizer :=
  if s.stopped then s
  else
    let s := { s with
      stopped := true, statusTimes := [], turns := s.turns.filter (· ≠ Turn.status)
      importJobs := s.importJobs.close }.settle
    { s with bodyJobs := s.bodyJobs.close }

end BlockSync.Synchronizer
