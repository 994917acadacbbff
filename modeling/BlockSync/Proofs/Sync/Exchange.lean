import BlockSync.Proofs.Sync.Asking
import BlockSync.Proofs.Sync.Import
import BlockSync.Proofs.Wire.Frames

/-! One exchange between two nodes. The client asks the server for headers and then for
bodies, each message in a frame of its own, and imports what it gets. With an honest
server that is ahead of it on its own branch, the client ends up with the next canonical
blocks of the server and a heavier chain. -/
namespace BlockSync

def Message.Fits (m : Message) : Prop :=
  ∃ stream, Frame.write m.envelope = .ok stream

/-- The envelopes that arrive of some messages. Each travels in a frame of its own, and
one that fits in none is lost. -/
def carry (messages : List Message) : List Envelope :=
  messages.flatMap fun m =>
    match Frame.write m.envelope with
    | .ok stream => (Frame.readAll stream).1
    | .error _ => []

theorem carry_singleton {m : Message} (fits : m.Fits) : carry [m] = [m.envelope] := by
  obtain ⟨stream, written⟩ := fits
  unfold carry
  rw [List.flatMap_singleton, written]
  dsimp only
  rw [Frame.readAll_write written]

theorem Message.Fits.length_lt {m : Message} (fits : m.Fits) : m.body.length < 2 ^ 64 := by
  obtain ⟨stream, written⟩ := fits
  exact Nat.lt_of_le_of_lt (Frame.write_eq_ok written).1 (by decide)

theorem Message.fits_of_short {m : Message} (short : 6 * m.body.length + 5 ≤ Frame.maxBody) :
    m.Fits :=
  Frame.write_of_short short

theorem Message.fits_reqBlocksHeaders (start : UInt64) (take : UInt32) :
    (reqBlocksHeaders start take).Fits := by
  have length : (reqBlocksHeaders start take).body.length = 12 := by
    change (Bytes.littleEndian 8 _ ++ Bytes.littleEndian 4 _).length = 12
    rw [List.length_append, Bytes.length_littleEndian, Bytes.length_littleEndian]
  exact fits_of_short (by rw [length]; decide)

theorem Message.length_resBlocksHeaders (headers : List Header) :
    (resBlocksHeaders headers).body.length = 8 + (headers.flatMap Layout.header.write).length := by
  change (Bytes.littleEndian 8 _ ++ headers.flatMap Layout.header.write).length = _
  rw [List.length_append, Bytes.length_littleEndian]

theorem Message.fits_reqBlocksBodies {hashes : List Hash}
    (few : hashes.length ≤ Synchronizer.maxServed) : (reqBlocksBodies hashes).Fits := by
  have each : (hashes.flatMap Layout.hash.write).length = hashes.length * 40 := by
    rw [List.length_flatMap, List.map_congr_left (g := fun _ => 40)
      fun value _ => Layout.length_hash_write value, List.map_const', List.sum_replicate_nat]
  have length : (reqBlocksBodies hashes).body.length = 8 + hashes.length * 40 := by
    change (Bytes.littleEndian 8 _ ++ hashes.flatMap Layout.hash.write).length = _
    rw [List.length_append, Bytes.length_littleEndian, each]
  refine fits_of_short ?_
  rw [length]
  unfold Synchronizer.maxServed at few
  unfold Frame.maxBody
  omega

theorem Message.length_le_of_mem_bodies {bodies : List Bytes} {body : Bytes}
    (member : body ∈ bodies) : body.length ≤ (resBlocksBodies bodies).body.length := by
  have part := Layout.length_write_le_of_mem (l := Layout.bytes) member
  change (Bytes.littleEndian 8 _ ++ body).length ≤ _ at part
  change _ ≤ (Bytes.littleEndian 8 _ ++ bodies.flatMap Layout.bytes.write).length
  rw [List.length_append] at part ⊢
  omega

theorem Batch.isExpired_of_le {first : Header} {more : List Header} {localBest : UInt64}
    (since : Instant) (near : localBest.toNat ≤ first.number.toNat + maxBehind) :
    isExpired ⟨first :: more, since⟩ localBest = false := by
  unfold isExpired
  exact decide_eq_false (Nat.not_lt.2 near)

namespace Synchronizer

variable {s : Synchronizer} {peer : PeerId} {m : Message}

theorem receive_envelope (version : m.kind.route.version = 1) (fits : m.Fits) (s : Synchronizer)
    (peer : PeerId) (displayId : String) :
    s.receive peer displayId m.envelope = some (s.handle peer displayId m) := by
  have read := Message.ofBody_body version fits.length_lt []
  rw [List.append_nil] at read
  have found : handledKinds.find? (fun k => k.route = m.kind.route) = some m.kind := by
    revert version
    generalize m.kind = kind
    cases kind <;> decide
  unfold receive
  rw [show m.envelope.route = m.kind.route from rfl, found]
  dsimp only
  rw [show m.envelope.body = m.body from rfl, read]

/-- Takes in envelopes in order; one of an unknown route is passed over. -/
def receiveAll (s : Synchronizer) (peer : PeerId) (displayId : String) (envelopes : List Envelope) :
    Synchronizer :=
  envelopes.foldl (fun s e => (s.receive peer displayId e).getD s) s

theorem receiveAll_carry (version : m.kind.route.version = 1) (fits : m.Fits) (s : Synchronizer)
    (peer : PeerId) (displayId : String) :
    s.receiveAll peer displayId (carry [m]) = s.handle peer displayId m := by
  rw [carry_singleton fits, receiveAll, List.foldl_cons, List.foldl_nil,
    receive_envelope version fits, Option.getD_some]

theorem reply_eq (s : Synchronizer) (peer : PeerId) (displayId : String) (m : Message) :
    s.reply peer displayId m =
      if s.network.accepts peer then s.emit (.send peer displayId m) else s := by
  unfold reply send
  split <;> rfl

theorem exists_server (c : Chain) :
    ∃ s : Synchronizer, s.chain = c ∧ ∀ peer, s.network.accepts peer = true :=
  ⟨{ Synchronizer.new {} (fun _ => .ok ()) c 0 with network := ⟨[], 0, 0, fun _ => true⟩ }, rfl,
    fun _ => rfl⟩

theorem effects_send (accepts : s.network.accepts peer = true) (displayId : String) (m : Message) :
    (s.send peer displayId m).2.effects = s.effects ++ [.send peer displayId m] := by
  rw [send_of_accepts accepts]
  rfl

theorem effects_serveBodies (accepts : s.network.accepts peer = true) (displayId : String)
    (hashes : List Hash) :
    (s.serveBodies peer displayId hashes).effects =
      s.effects ++ [.send peer displayId (.resBlocksBodies (servedBodies s.chain hashes))] := by
  unfold serveBodies reply
  refine effects_send ?_ _ _
  exact accepts

theorem wake_eq (s : Synchronizer) (turn : Turn) : ∃ turns, s.wake turn = { s with turns } := by
  unfold wake
  split
  · exact ⟨s.turns, rfl⟩
  · exact ⟨_, rfl⟩

theorem push?_new {α : Type} {capacity : Nat} (room : 0 < capacity) (job : α) :
    (Backlog.new capacity).push? job = some ⟨capacity, [job], true⟩ := by
  unfold Backlog.push? Backlog.isFull Backlog.new
  simp [Nat.ne_of_gt room]

/-- Takes in headers up to where their request is to be queued. -/
def storeHeaders (s : Synchronizer) (peer : PeerId) (displayId : String) (headers : List Header) :
    Option BodyJob × Synchronizer :=
  let s := { s with requests := s.requests.noteAnswered peer }.recordResponse displayId .headers
  if headers.isEmpty then (none, s)
  else
    match screen s.validate s.isImported headers with
    | .error rejection =>
      (none, (s.setMetrics fun m => m.noteRejected rejection.reason).emit (.charge peer displayId))
    | .ok [] => (none, s)
    | .ok fresh => (some ⟨peer, displayId, fresh.map Header.hash⟩, s.storeBatch peer fresh)

/-- Queues a request for bodies, or forgets the batch of its peer. -/
def queueBodies (s : Synchronizer) (job : BodyJob) : Synchronizer :=
  match s.bodyJobs.push? job with
  | some bodyJobs => { s with bodyJobs }.wake .bodies
  | none => { s with requests := s.requests.clear job.peer }

theorem takeHeaders_eq (s : Synchronizer) (peer : PeerId) (displayId : String)
    (headers : List Header) : s.takeHeaders peer displayId headers =
      match s.storeHeaders peer displayId headers with
      | (some job, s) => s.queueBodies job
      | (none, s) => s := by
  unfold takeHeaders storeHeaders
  dsimp only
  generalize Synchronizer.recordResponse _ displayId .headers = t
  split
  · rfl
  · cases screen t.validate t.isImported headers with
    | error rejection => rfl
    | ok fresh => cases fresh <;> rfl

/-- No headers at all are treated like headers that are known. -/
theorem storeHeaders_eq (s : Synchronizer) (peer : PeerId) (displayId : String)
    (headers : List Header) : s.storeHeaders peer displayId headers =
      let t := { s with requests := s.requests.noteAnswered peer }.recordResponse displayId .headers
      match screen s.validate s.isImported headers with
      | .error rejection =>
        (none, (t.setMetrics fun m => m.noteRejected rejection.reason).emit (.charge peer displayId))
      | .ok [] => (none, t)
      | .ok fresh => (some ⟨peer, displayId, fresh.map Header.hash⟩, t.storeBatch peer fresh) := by
  cases headers <;> rfl

theorem takeHeaders_known {headers : List Header}
    (passed : screen s.validate s.isImported headers = .ok []) (peer : PeerId)
    (displayId : String) : Apart s (s.takeHeaders peer displayId headers) := by
  rw [takeHeaders_eq, storeHeaders_eq, passed]
  exact ⟨_, _, _, rfl⟩

theorem takeHeaders_of_fresh {headers fresh : List Header}
    (passed : screen s.validate s.isImported headers = .ok fresh) (some_new : fresh ≠ [])
    (peer : PeerId) (displayId : String) :
    ∃ statistics, s.takeHeaders peer displayId headers =
      { s with
        requests := ⟨s.requests.batches.insert peer ⟨fresh, s.now⟩, (s.requests.asked.erase peer).2⟩
        statistics }.queueBodies ⟨peer, displayId, fresh.map Header.hash⟩ := by
  obtain ⟨first, more, rfl⟩ := List.exists_cons_of_ne_nil some_new
  rw [takeHeaders_eq, storeHeaders_eq, passed]
  exact ⟨_, rfl⟩

/-- What is new of the headers that come becomes the batch of their peer, and the request for
the bodies waits. -/
theorem takeHeaders_fresh {headers fresh : List Header} (nonempty : fresh ≠ [])
    (passed : screen s.validate s.isImported headers = .ok fresh)
    (idle : s.bodyJobs = .new bodyQueue) (peer : PeerId) (displayId : String) :
    ∃ requests statistics turns, s.takeHeaders peer displayId headers =
        { s with
          requests, statistics, turns
          bodyJobs := ⟨bodyQueue, [⟨peer, displayId, fresh.map Header.hash⟩], true⟩ } ∧
      requests.batches.peek? peer = some ⟨fresh, s.now⟩ := by
  have pushed := push?_new (by decide : 0 < bodyQueue)
    (⟨peer, displayId, fresh.map Header.hash⟩ : BodyJob)
  rw [← idle] at pushed
  obtain ⟨statistics, taken⟩ := takeHeaders_of_fresh passed nonempty peer displayId
  rw [taken, queueBodies, pushed]
  dsimp only
  obtain ⟨turns, woken⟩ := wake_eq { s with
    requests := ⟨s.requests.batches.insert peer ⟨fresh, s.now⟩, (s.requests.asked.erase peer).2⟩
    statistics
    bodyJobs := ⟨bodyQueue, [⟨peer, displayId, fresh.map Header.hash⟩], true⟩ } .bodies
  rw [woken]
  exact ⟨_, _, _, rfl, Recency.peek?_insert_self _ _ _⟩

theorem runBodies_single {job : BodyJob} (jobs : s.bodyJobs = ⟨bodyQueue, [job], true⟩)
    (accepts : s.network.accepts job.peer = true) :
    ∃ statistics, s.runBodies =
      { s with
        statistics, bodyJobs := .new bodyQueue
        effects := s.effects ++ [.send job.peer job.displayId (.reqBlocksBodies job.hashes)] } := by
  have next : s.bodyJobs.next? = some (job, .new bodyQueue) := by
    rw [jobs]
    rfl
  have sent := send_of_accepts
    (s := { s with bodyJobs := .new bodyQueue }.recordRequest job.displayId .bodies) accepts
    job.displayId (.reqBlocksBodies job.hashes)
  unfold runBodies
  rw [next]
  dsimp only
  unfold runBodyJob
  rw [sent]
  exact ⟨_, rfl⟩

theorem submit_idle (idle : s.importJobs = .new importQueue) (job : ImportJob) :
    ∃ turns, s.submit job = { s with turns, importJobs := ⟨importQueue, [job], true⟩ } := by
  have pushed := push?_new (by decide : 0 < importQueue) job
  have free : (s.importJobs.accepting && s.importJobs.isFull) = false := by
    rw [idle]
    rfl
  unfold submit
  rw [free, if_neg Bool.false_ne_true]
  dsimp only
  rw [idle, pushed]
  exact wake_eq _ _

theorem take_batch {r : Requests} {batch : Batch} {count : Nat} {localBest : UInt64}
    (awaited : r.batches.peek? peer = some batch) (current : batch.isExpired localBest = false)
    (whole : batch.headers.length = count) :
    r.take peer count localBest = (some batch.headers, r.clear peer) := by
  unfold Requests.take
  rw [awaited]
  dsimp only
  rw [current, if_neg Bool.false_ne_true, if_neg (by simp [whole])]

theorem takeBodies_batch {batch : Batch} {bodies : List Bytes} {block : Block}
    {blocks : List Block} (awaited : s.requests.batches.peek? peer = some batch)
    (current : batch.isExpired s.chain.bestNumber = false)
    (count : batch.headers.length = bodies.length)
    (fit : assemble batch.headers bodies = block :: blocks)
    (near : BatchRoute.of block.number s.chain.bestNumber = .intake) (displayId : String) :
    s.takeBodies peer displayId bodies = (some (.batch displayId (block :: blocks)),
      { s.recordResponse displayId .bodies with requests := s.requests.clear peer }) := by
  have nonempty : bodies ≠ [] := by
    rintro rfl
    rw [List.length_nil, List.length_eq_zero_iff] at count
    rw [count] at fit
    cases fit
  have matched := take_batch awaited current count
  have cases := s.takeBodies_cases peer displayId bodies
  generalize s.takeBodies peer displayId bodies = answer at cases ⊢
  cases cases with
  | empty none_came => exact absurd none_came nonempty
  | unexpected _ taken => cases matched.symm.trans taken
  | unfit _ taken unfit =>
    cases matched.symm.trans taken
    cases fit.symm.trans unfit
  | stored _ taken fit' far =>
    cases matched.symm.trans taken
    cases fit.symm.trans fit'
    cases near.symm.trans far
  | given _ taken fit' =>
    cases matched.symm.trans taken
    cases fit.symm.trans fit'
    rfl

/-- Bodies that make the blocks of a batch near the head: the import of them waits. -/
theorem deliverBodies_batch {batch : Batch} {bodies : List Bytes} {block : Block}
    {blocks : List Block} (awaited : s.requests.batches.peek? peer = some batch)
    (current : batch.isExpired s.chain.bestNumber = false)
    (count : batch.headers.length = bodies.length)
    (fit : assemble batch.headers bodies = block :: blocks)
    (near : BatchRoute.of block.number s.chain.bestNumber = .intake)
    (idle : s.importJobs = .new importQueue) (displayId : String) :
    ∃ requests statistics turns, s.deliverBodies peer displayId bodies =
      { s with
        requests, statistics, turns
        importJobs := ⟨importQueue, [.batch displayId (block :: blocks)], true⟩ } := by
  obtain ⟨turns, submitted⟩ := submit_idle (s := { s.recordResponse displayId .bodies with
    requests := s.requests.clear peer }) idle (.batch displayId (block :: blocks))
  unfold deliverBodies
  rw [takeBodies_batch awaited current count fit near displayId]
  dsimp only
  rw [submitted]
  exact ⟨_, _, _, rfl⟩

theorem chain_runImports_batch {displayId : String} {blocks : List Block}
    (jobs : s.importJobs = ⟨importQueue, [.batch displayId blocks], true⟩) :
    (runImports 1 s).chain = (s.intake.importBlocks blocks).1.chain := by
  have next : s.importJobs.next? = some (.batch displayId blocks, .new importQueue) := by
    rw [jobs]
    rfl
  rw [runImports, next]
  dsimp only
  rw [runImports, runImportJob, chain_importBatch]

end Synchronizer

/-- Two connected nodes, with the names that each has for the other. -/
structure Link where
  client : Synchronizer
  server : Synchronizer
  clientId : PeerId
  clientName : String
  serverId : PeerId
  serverName : String

namespace Link

/-- The client does something, the server takes in what it is sent meanwhile, and the
client takes in what the server sends for that. -/
def round (l : Link) (act : Synchronizer → Synchronizer) : Link :=
  let client := act l.client
  let requests := (client.sent l.serverId).drop (l.client.sent l.serverId).length
  let server := l.server.receiveAll l.clientId l.clientName (carry requests)
  let answers := (server.sent l.clientId).drop (l.server.sent l.clientId).length
  { l with server, client := client.receiveAll l.serverId l.serverName (carry answers) }

/-- A round for headers, a round for bodies, and the import of what came. -/
def exchange (l : Link) : Link :=
  let l := (l.round Synchronizer.runCycle).round Synchronizer.runBodies
  { l with client := Synchronizer.runImports 1 l.client }

theorem round_eq {l : Link} {act : Synchronizer → Synchronizer} {request answer : Message}
    (asked : (act l.client).sent l.serverId = l.client.sent l.serverId ++ [request])
    (request_fits : request.Fits) (request_version : request.kind.route.version = 1)
    (answered : (l.server.handle l.clientId l.clientName request).sent l.clientId =
      l.server.sent l.clientId ++ [answer])
    (answer_fits : answer.Fits) (answer_version : answer.kind.route.version = 1) :
    l.round act =
      { l with
        server := l.server.handle l.clientId l.clientName request
        client := (act l.client).handle l.serverId l.serverName answer } := by
  unfold round
  dsimp only
  rw [asked, List.drop_left, Synchronizer.receiveAll_carry request_version request_fits, answered,
    List.drop_left, Synchronizer.receiveAll_carry answer_version answer_fits]

/-- The client's next cycle sends the server one request, for so many headers after its head. -/
def Asks (l : Link) (take : UInt32) : Prop :=
  l.client.runCycle.sent l.serverId =
    l.client.sent l.serverId ++ [.reqBlocksHeaders (l.client.chain.bestNumber + 1) take]

/-- Nothing comes between: each side sends what it has to say, the server's headers fit in a
frame, and the client, its queues open and empty, waits for nothing from the server and has
the server's total on record. -/
structure Ready (l : Link) : Prop where
  server_sends : l.server.network.accepts l.clientId = true
  client_sends : l.client.network.accepts l.serverId = true
  bodies_idle : l.client.bodyJobs = .new Synchronizer.bodyQueue
  imports_idle : l.client.importJobs = .new Synchronizer.importQueue
  peers_distinct : (l.client.network.peers.map PeerInfo.peer).Nodup
  on_record : ∃ info ∈ l.client.network.peers, info.peer = l.serverId ∧
    info.chain.totalDifficulty = l.server.chain.total
  nothing_owed : l.client.requests.mayAsk l.serverId l.client.now l.client.chain.bestNumber = true
  headers_fit : ∀ take, l.Asks take → (Message.resBlocksHeaders
    (Synchronizer.servedHeaders l.server.chain (l.client.chain.bestNumber + 1) take)).Fits

/-- The bodies of all headers that the server gives fit in a frame too. -/
structure Undisturbed (l : Link) : Prop extends Ready l where
  bodies_fit : ∀ take, l.Asks take → (Message.resBlocksBodies
    (Synchronizer.servedBodies l.server.chain
      ((Synchronizer.servedHeaders l.server.chain (l.client.chain.bestNumber + 1) take).map
        Header.hash))).Fits

/-- The bodies that are asked for fit in a frame. -/
structure Quiet (l : Link) : Prop extends Ready l where
  bodies_fit : ∀ take fresh, l.Asks take →
    screen l.client.validate l.client.isImported
      (Synchronizer.servedHeaders l.server.chain (l.client.chain.bestNumber + 1) take) = .ok fresh →
    (Message.resBlocksBodies
      (Synchronizer.servedBodies l.server.chain (fresh.map Header.hash))).Fits

theorem Undisturbed.quiet {l : Link} (h : l.Undisturbed)
    (passed : ∀ take, l.Asks take → screen l.client.validate l.client.isImported
      (Synchronizer.servedHeaders l.server.chain (l.client.chain.bestNumber + 1) take) =
        .ok (Synchronizer.servedHeaders l.server.chain (l.client.chain.bestNumber + 1) take)) :
    l.Quiet where
  toReady := h.toReady
  bodies_fit take fresh asked screened := by
    rw [passed take asked] at screened
    cases screened
    exact h.bodies_fit take asked

open Synchronizer

theorem Quiet.asked {l : Link} (h : l.Quiet) (heavier : l.client.chain.total < l.server.chain.total)
    (room : l.client.chain.bestNumber.toNat + 1 < 2 ^ 64) :
    ∃ take ∈ requestSizes, l.Asks take := by
  obtain ⟨info, listed, same, record⟩ := h.on_record
  have asked := sent_runCycle listed h.peers_distinct (by rw [record]; exact heavier)
    (by rw [same]; exact h.nothing_owed) (by rw [same]; exact h.client_sends) room
  rw [same] at asked
  exact asked

theorem Quiet.round_runCycle {l : Link} {take : UInt32} (h : l.Quiet) (asked : l.Asks take) :
    let headers := servedHeaders l.server.chain (l.client.chain.bestNumber + 1) take
    ∃ asking, Apart l.client asking ∧ l.round runCycle =
      { l with
        client := asking.takeHeaders l.serverId l.serverName headers
        server := l.server.emit (.send l.clientId l.clientName (.resBlocksHeaders headers)) } := by
  intro headers
  have answer : l.server.handle l.clientId l.clientName
      (.reqBlocksHeaders (l.client.chain.bestNumber + 1) take) =
        l.server.emit (.send l.clientId l.clientName (.resBlocksHeaders headers)) :=
    congrArg Prod.snd (send_of_accepts h.server_sends _ _)
  have answered := sent_of_effects (congrArg Synchronizer.effects answer) l.clientId
  rw [if_pos rfl] at answered
  refine ⟨l.client.runCycle, apart_runCycle l.client, ?_⟩
  rw [round_eq asked (Message.fits_reqBlocksHeaders _ take) rfl answered (h.headers_fit take asked)
    rfl, answer]
  rfl

/-- A round for headers that pass, some of them new: the request for their bodies waits. -/
theorem Quiet.round_fresh {l : Link} {take : UInt32} {fresh : List Block} (h : l.Quiet)
    (asked : l.Asks take) (nonempty : fresh ≠ [])
    (passed : screen l.client.validate l.client.isImported
      (servedHeaders l.server.chain (l.client.chain.bestNumber + 1) take) =
        .ok (fresh.map Block.header)) :
    ∃ client headers, l.round runCycle =
        { l with
          client
          server := l.server.emit (.send l.clientId l.clientName (.resBlocksHeaders headers)) } ∧
      client.intake = l.client.intake ∧ client.network = l.client.network ∧
      client.importJobs = .new importQueue ∧
      client.bodyJobs = ⟨bodyQueue, [⟨l.serverId, l.serverName, fresh.map Block.hash⟩], true⟩ ∧
      ∃ since, client.requests.batches.peek? l.serverId = some ⟨fresh.map Block.header, since⟩ := by
  obtain ⟨asking, ⟨requests, statistics, effects, cycled⟩, round⟩ := h.round_runCycle asked
  rw [← show asking.validate = l.client.validate by rw [cycled],
    ← show asking.isImported = l.client.isImported by rw [cycled]; rfl] at passed
  have idle : asking.bodyJobs = .new bodyQueue := by rw [cycled, h.bodies_idle]
  have nonempty : fresh.map Block.header ≠ [] := by simpa using nonempty
  obtain ⟨_, _, _, taken, awaited⟩ := takeHeaders_fresh nonempty passed idle l.serverId l.serverName
  refine ⟨_, _, round, ?_⟩
  rw [taken]
  have hashes : (fresh.map Block.header).map Header.hash = fresh.map Block.hash := List.map_map
  exact ⟨by rw [cycled], by rw [cycled], by rw [cycled, h.imports_idle], by rw [hashes], _, awaited⟩

/-- A round for the bodies of a batch near the head: the import of its blocks waits. -/
theorem round_runBodies {l : Link} {since : Instant} {first : Block} {more : List Block}
    (server_sends : l.server.network.accepts l.clientId = true)
    (client_sends : l.client.network.accepts l.serverId = true)
    (imports_idle : l.client.importJobs = .new importQueue)
    (waiting : l.client.bodyJobs =
      ⟨bodyQueue, [⟨l.serverId, l.serverName, (first :: more).map Block.hash⟩], true⟩)
    (awaited : l.client.requests.batches.peek? l.serverId =
      some ⟨(first :: more).map Block.header, since⟩)
    (few : (first :: more).length ≤ maxServed)
    (stored : ∀ block ∈ first :: more, l.server.chain.blockByHash? block.hash = some block)
    (roots : ∀ block ∈ first :: more, block.body.root = block.header.txRoot)
    (fits : (Message.resBlocksBodies ((first :: more).map fun block => block.body.encode)).Fits)
    (above : l.client.chain.bestNumber.toNat < first.number.toNat)
    (near : first.number.toNat ≤ l.client.chain.bestNumber.toNat + maxServed) :
    (l.round runBodies).client.intake = l.client.intake ∧
      (l.round runBodies).client.importJobs =
        ⟨importQueue, [.batch l.serverName (first :: more)], true⟩ := by
  have bodies := servedBodies_hashes few stored
  obtain ⟨statistics, ran⟩ := runBodies_single waiting client_sends
  have asked := sent_of_effects (congrArg Synchronizer.effects ran) l.serverId
  rw [if_pos rfl] at asked
  have answer : (l.server.handle l.clientId l.clientName
      (.reqBlocksBodies ((first :: more).map Block.hash))).effects = l.server.effects ++
        [.send l.clientId l.clientName
          (.resBlocksBodies ((first :: more).map fun block => block.body.encode))] := by
    rw [← bodies]
    exact effects_serveBodies server_sends _ _
  have answered := sent_of_effects answer l.clientId
  rw [if_pos rfl] at answered
  have request_fits : (Message.reqBlocksBodies ((first :: more).map Block.hash)).Fits := by
    apply Message.fits_reqBlocksBodies
    rw [List.length_map]
    exact few
  rw [round_eq asked request_fits rfl answered fits rfl]
  dsimp only
  generalize l.client.runBodies = asking at ran
  have short : ∀ block ∈ first :: more, block.body.encode.length < 2 ^ 64 := by
    intro block member
    have listed : block.body.encode ∈ (first :: more).map fun block => block.body.encode :=
      List.mem_map_of_mem member
    exact Nat.lt_of_le_of_lt (Message.length_le_of_mem_bodies listed) fits.length_lt
  have current : Batch.isExpired ⟨(first :: more).map Block.header, since⟩ asking.chain.bestNumber =
      false := by
    have chain : asking.chain = l.client.chain := by rw [ran]; rfl
    rw [chain]
    have number : first.header.number = first.number := rfl
    exact Batch.isExpired_of_le since (by rw [number]; omega)
  have route : BatchRoute.of first.number asking.chain.bestNumber = .intake := by
    have chain : asking.chain = l.client.chain := by rw [ran]; rfl
    have inside : maxServed ≤ 100 := by decide
    rw [chain]
    exact BatchRoute.of_eq_intake_iff.2 (by omega)
  have counts : ((first :: more).map Block.header).length =
      ((first :: more).map fun block => block.body.encode).length := by
    rw [List.length_map, List.length_map]
  obtain ⟨_, _, _, delivered⟩ := deliverBodies_batch (s := asking) (by rw [ran]; exact awaited)
    current counts (assemble_encode roots short) route (by rw [ran]; exact imports_idle)
    l.serverName
  change (asking.deliverBodies _ _ _).intake = _ ∧ (asking.deliverBodies _ _ _).importJobs = _
  rw [delivered]
  exact ⟨by rw [ran], rfl⟩

theorem round_of_silence {l : Link} {act : Synchronizer → Synchronizer} (silent : act l.client = l.client) :
    l.round act = l := by
  unfold round
  rw [silent]
  simp [carry, receiveAll]

/-- An exchange imports the served blocks that are new to the client. -/
theorem Quiet.chain_exchange {l : Link} (h : l.Quiet) {take : UInt32} {fresh : List Block}
    (asked : l.Asks take)
    (passed : screen l.client.validate l.client.isImported
      (servedHeaders l.server.chain (l.client.chain.bestNumber + 1) take) =
        .ok (fresh.map Block.header))
    (few : fresh.length ≤ maxServed)
    (stored : ∀ block ∈ fresh, l.server.chain.blockByHash? block.hash = some block)
    (roots : ∀ block ∈ fresh, block.body.root = block.header.txRoot)
    (above : ∀ block ∈ fresh, l.client.chain.bestNumber.toNat < block.number.toNat)
    (near : ∀ block ∈ fresh,
      block.number.toNat ≤ l.client.chain.bestNumber.toNat + maxServed) :
    l.exchange.client.chain = (l.client.intake.importBlocks fresh).1.chain := by
  have bodies_fit := h.bodies_fit take _ asked passed
  have hashes : (fresh.map Block.header).map Header.hash = fresh.map Block.hash := List.map_map
  rw [hashes, servedBodies_hashes few stored] at bodies_fit
  cases fresh with
  | nil =>
    obtain ⟨asking, apart, round⟩ := h.round_runCycle asked
    have known : Apart asking (asking.takeHeaders l.serverId l.serverName
        (servedHeaders l.server.chain (l.client.chain.bestNumber + 1) take)) := by
      apply takeHeaders_known
      obtain ⟨_, _, _, rfl⟩ := apart
      exact passed
    obtain ⟨_, _, _, client⟩ := apart.trans known
    rw [client] at round
    have no_bodies : Backlog.next? (.new bodyQueue : Backlog BodyJob) = none := rfl
    have no_imports : Backlog.next? (.new importQueue : Backlog ImportJob) = none := rfl
    have silent : (l.round runCycle).client.runBodies = (l.round runCycle).client := by
      rw [round]
      simp [runBodies, h.bodies_idle, no_bodies]
    unfold exchange
    rw [round_of_silence silent, round]
    simp [runImports, h.imports_idle, no_imports, Synchronizer.chain, Intake.importBlocks]
  | cons first more =>
    obtain ⟨client, headers, asking, intake, network, idle, waiting, since, awaited⟩ :=
      h.round_fresh asked (List.cons_ne_nil _ _) passed
    have chain : client.chain = l.client.chain := congrArg Intake.chain intake
    have ended := round_runBodies (l := { l with
        client
        server := l.server.emit (.send l.clientId l.clientName (.resBlocksHeaders headers)) })
      h.server_sends (by rw [network]; exact h.client_sends) idle waiting awaited few stored roots
      bodies_fit (by rw [chain]; exact above first List.mem_cons_self)
      (by rw [chain]; exact near first List.mem_cons_self)
    unfold exchange
    rw [asking]
    dsimp only
    rw [chain_runImports_batch ended.2, ended.1, intake]

end Link

end BlockSync
