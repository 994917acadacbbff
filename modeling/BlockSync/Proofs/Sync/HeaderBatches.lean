import BlockSync.Proofs.Sync.BodyRequests
import BlockSync.Proofs.Sync.Moves
import BlockSync.Proofs.Sync.Screening

/-! Headers that a peer sends are taken as one batch. If one of them is at fault, the peer is
charged for the message and nothing else is done about it; if all are known, nothing is done at
all. The others become the batch of the peer, and one request for just their bodies is queued, or
the batch is forgotten when there is no room for it. Whatever came, the peer owes no headers any
more. -/
namespace BlockSync

namespace Synchronizer

/-- Of the requests for headers only the one to the peer is closed. -/
def Closes (s t : Synchronizer) (peer : PeerId) : Prop :=
  ∀ other, t.requests.asked.peek? other =
    if peer = other then none else s.requests.asked.peek? other

/-- Headers at fault cost the peer one error, and that is all. -/
structure Rejects (s t : Synchronizer) (peer : PeerId) (displayId : String) : Prop where
  closes : s.Closes t peer
  batches : t.requests.batches = s.requests.batches
  effects : t.effects = s.effects ++ [.charge peer displayId]
  elsewhere : { t with
    requests := s.requests
    statistics := s.statistics
    intake := { t.intake with metrics := s.metrics }
    effects := s.effects } = s

/-- Headers that are known change nothing. -/
structure Ignores (s t : Synchronizer) (peer : PeerId) : Prop where
  closes : s.Closes t peer
  batches : t.requests.batches = s.requests.batches
  elsewhere : { t with requests := s.requests, statistics := s.statistics } = s

/-- The headers become the batch of the peer, and a request for their bodies is queued. -/
structure Books (s t : Synchronizer) (peer : PeerId) (displayId : String) (fresh : List Header) :
    Prop where
  closes : s.Closes t peer
  batch : t.requests.batches.peek? peer = some ⟨fresh, s.now⟩
  queued : t.bodyJobs =
    { s.bodyJobs with jobs := s.bodyJobs.jobs ++ [⟨peer, displayId, fresh.map Header.hash⟩] }
  elsewhere : { t with
    requests := s.requests
    statistics := s.statistics
    bodyJobs := s.bodyJobs
    turns := s.turns } = s

/-- No bodies are awaited from the peer, and none are asked for. -/
structure Forgoes (s t : Synchronizer) (peer : PeerId) : Prop where
  closes : s.Closes t peer
  batch : t.requests.batches.peek? peer = none
  elsewhere : { t with requests := s.requests, statistics := s.statistics } = s

variable {s t : Synchronizer} {peer : PeerId} {displayId : String} {headers fresh : List Header}

theorem closes_noteAnswered (same : t.requests.asked = (s.requests.noteAnswered peer).asked) :
    s.Closes t peer := by
  intro other
  rw [same]
  exact Recency.peek?_erase s.requests.asked peer other

theorem rejects_takeHeaders {rejection : BatchRejection}
    (refused : screen s.validate s.isImported headers = .error rejection) :
    s.Rejects (s.takeHeaders peer displayId headers) peer displayId := by
  rw [takeHeaders_eq, storeHeaders_eq, refused]
  exact ⟨closes_noteAnswered rfl, rfl, rfl, rfl⟩

theorem ignores_takeHeaders (passed : screen s.validate s.isImported headers = .ok []) :
    s.Ignores (s.takeHeaders peer displayId headers) peer := by
  rw [takeHeaders_eq, storeHeaders_eq, passed]
  exact ⟨closes_noteAnswered rfl, rfl, rfl⟩

theorem books_takeHeaders (passed : screen s.validate s.isImported headers = .ok fresh)
    (some_new : fresh ≠ []) (room : s.bodyJobs.HasRoom) :
    s.Books (s.takeHeaders peer displayId headers) peer displayId fresh := by
  obtain ⟨statistics, taken⟩ := takeHeaders_of_fresh passed some_new peer displayId
  rw [taken, queueBodies, Backlog.push?_of_room room]
  dsimp only
  obtain ⟨turns, woken⟩ := wake_eq { s with
    requests := ⟨s.requests.batches.insert peer ⟨fresh, s.now⟩, (s.requests.asked.erase peer).2⟩
    statistics
    bodyJobs := { s.bodyJobs with
      jobs := s.bodyJobs.jobs ++ [⟨peer, displayId, fresh.map Header.hash⟩] } } .bodies
  rw [woken]
  exact ⟨closes_noteAnswered rfl, Recency.peek?_insert_self _ _ _, rfl, rfl⟩

theorem forgoes_takeHeaders (passed : screen s.validate s.isImported headers = .ok fresh)
    (some_new : fresh ≠ []) (full : ¬ s.bodyJobs.HasRoom) :
    s.Forgoes (s.takeHeaders peer displayId headers) peer := by
  obtain ⟨statistics, taken⟩ := takeHeaders_of_fresh passed some_new peer displayId
  rw [taken, queueBodies, Backlog.push?_of_full full]
  exact ⟨closes_noteAnswered rfl, (Recency.peek?_erase _ peer peer).trans (if_pos rfl), rfl⟩

/-- The request that a job sends names the hashes of the job, if it is sent. -/
theorem effects_runBodyJob (s : Synchronizer) (job : BodyJob) :
    (s.runBodyJob job).effects = s.effects ++
      if s.network.accepts job.peer then
        [.send job.peer job.displayId (.reqBlocksBodies job.hashes)]
      else [] := by
  have same : (s.recordRequest job.displayId .bodies).network = s.network := rfl
  unfold runBodyJob send
  rw [same]
  cases s.network.accepts job.peer with
  | true => rfl
  | false => exact (List.append_nil _).symm

/-- A batch passes the screening exactly if it is flawless, and then its headers with unknown
hashes are left, in order. Otherwise it is refused for its first fault. The peer of a refused
batch is charged once; no request but its own for headers is closed, and neither the batches, nor
the cache, nor the chain, nor any queue is touched. If headers are left they become the batch of
the peer, and the request that is queued, and sent when its turn comes, names their hashes; with
no room for it nothing is awaited. -/
theorem batch_of_headers :
    (∀ (validate : Validator) (known : Hash → Bool) (headers : List Header),
      (∀ fresh, screen validate known headers = .ok fresh ↔
        Flawless validate headers ∧ fresh = headers.filter fun h => !known h.hash) ∧
      ∀ rejection, screen validate known headers = .error rejection ↔
        ∃ front h back, headers = front ++ h :: back ∧ Flawless validate front ∧
          Fault validate front.getLast? h rejection) ∧
    (∀ (s : Synchronizer) (peer : PeerId) (displayId : String) (headers : List Header),
      let t := s.takeHeaders peer displayId headers
      match screen s.validate s.isImported headers with
      | .error _ => s.Rejects t peer displayId
      | .ok [] => s.Ignores t peer
      | .ok fresh =>
        (s.bodyJobs.HasRoom → s.Books t peer displayId fresh) ∧
          (¬ s.bodyJobs.HasRoom → s.Forgoes t peer)) ∧
    ∀ (s : Synchronizer) (job : BodyJob),
      (s.runBodyJob job).effects = s.effects ++
        if s.network.accepts job.peer then
          [.send job.peer job.displayId (.reqBlocksBodies job.hashes)]
        else [] := by
  refine ⟨?_, ?_, effects_runBodyJob⟩
  · exact fun validate known headers =>
      ⟨fun fresh => screen_eq_ok_iff, fun rejection => screen_eq_error_iff⟩
  · intro s peer displayId headers t
    cases screened : screen s.validate s.isImported headers with
    | error rejection => exact rejects_takeHeaders screened
    | ok fresh =>
      cases fresh with
      | nil => exact ignores_takeHeaders screened
      | cons first more =>
        have some_new : first :: more ≠ [] := List.cons_ne_nil _ _
        exact ⟨books_takeHeaders screened some_new, forgoes_takeHeaders screened some_new⟩

/-- A header that comes twice does not build on itself, so the message is refused. Once, it is
booked. -/
theorem batch_of_header_twice :
    let header := Chain.Fork.first.header
    let s : Synchronizer := .new {} (fun _ => .ok ()) (.history Chain.Fork.start {} []) 0
    screen s.validate s.isImported [header, header] = .error (.discontinuous header.number) ∧
      s.Rejects (s.takeHeaders ⟨1⟩ "a" [header, header]) ⟨1⟩ "a" ∧
      s.Books (s.takeHeaders ⟨1⟩ "a" [header]) ⟨1⟩ "a" [header] := by
  intro header s
  obtain ⟨screening, taking, -⟩ := batch_of_headers
  have alone : Flawless s.validate [header] := ⟨fun _ _ => rfl, .singleton _⟩
  have apart : ¬ header.Precedes header := fun joined => Nat.succ_ne_self _ joined.1
  have refused := ((screening s.validate s.isImported [header, header]).2 _).2
    ⟨[header], header, [], rfl, alone, .discontinuous rfl rfl apart⟩
  have passed := ((screening s.validate s.isImported [header]).1 [header]).2 ⟨alone, rfl⟩
  have refusal := taking s ⟨1⟩ "a" [header, header]
  have booking := taking s ⟨1⟩ "a" [header]
  rw [refused] at refusal
  rw [passed] at booking
  exact ⟨refused, refusal, booking.1 ⟨rfl, by decide⟩⟩

end Synchronizer

end BlockSync
