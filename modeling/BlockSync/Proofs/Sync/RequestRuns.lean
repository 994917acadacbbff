import BlockSync.Proofs.Sync.Cycles
import Mathlib.Data.List.TakeWhile

/-! Runs of the requests for headers. A cycle reads the head of the chain, then its total and the
time. It chooses whom to ask, all at once, and only then sends one request after the other, and a
request that is refused takes another step to be forgotten. Headers, batches and anything else may
come between any two of these steps. One worker runs the cycles, so they come one after another. -/
namespace BlockSync

theorem concat_eq_append_cons {α : Type} {log front back : List α} {last a : α}
    (split : log ++ [last] = front ++ a :: back) :
    log = front ∧ last = a ∧ back = [] ∨
      ∃ rest, log = front ++ a :: rest ∧ back = rest ++ [last] := by
  rcases List.eq_nil_or_concat' back with rfl | ⟨rest, final, rfl⟩
  · obtain ⟨same, own⟩ := List.append_inj' split rfl
    exact .inl ⟨same, (List.cons.inj own).1, rfl⟩
  · rw [← List.cons_append, ← List.append_assoc] at split
    obtain ⟨same, own⟩ := List.append_inj' split rfl
    exact .inr ⟨rest, same, by rw [List.cons.inj own |>.1]⟩

/-- What a run tells of requests for headers and of batches. -/
inductive Deed where
  /-- A cycle chooses whom to ask, going by what it read when it began. -/
  | chose (b : Bearings) (s : Synchronizer)
  | sent (r : HeaderRequest) (now : Instant)
  /-- A request that the transport did not take is forgotten. -/
  | refused (r : HeaderRequest)
  | headersFrom (peer : PeerId)
  | stored (peer : PeerId) (headers : List Header) (now : Instant)
  | taken (peer : PeerId) (count : Nat) (localBest : UInt64)
  | cleared (peer : PeerId)
  | pruned (localBest : UInt64)

namespace Deed

open Requests (Operation)

def operations : Deed → List Operation
  | chose b s => (s.plan b).map fun r => .noteAsked r.peer b.now
  | sent _ _ => []
  | refused r => [.noteAnswered r.peer]
  | headersFrom peer => [.noteAnswered peer]
  | stored peer headers now => [.store peer headers now]
  | taken peer count localBest => [.take peer count localBest]
  | cleared peer => [.clear peer]
  | pruned localBest => [.prune localBest]

/-- Only a cycle does this. -/
def ofCycle : Deed → Bool
  | chose _ _ | sent _ _ | refused _ => true
  | _ => false

def isChoice : Deed → Bool
  | chose _ _ => true
  | _ => false

/-- A request that was offered to the transport, whether or not it was taken. -/
def offered? : Deed → Option HeaderRequest
  | sent r _ | refused r => some r
  | _ => none

/-- Something of the peer is put into a table. -/
def Notes (peer : PeerId) : Deed → Prop
  | chose b s => s.Chooses b peer
  | stored target _ _ => target = peer
  | _ => False

/-- A batch of a peer ends if it is matched, found to be expired, forgotten, or another one
takes its place. -/
def Ends (peer : PeerId) (batch : Batch) : Deed → Prop
  | stored target headers now => target = peer ∧ headers ≠ [] ∧ batch ≠ ⟨headers, now⟩
  | taken target count localBest =>
    target = peer ∧ (batch.reaches localBest = false ∨ batch.headers.length = count)
  | cleared target => target = peer
  | pruned localBest => batch.reaches localBest = false
  | chose _ _ | sent _ _ | refused _ | headersFrom _ => False

/-- What becomes of the batch of a peer, and below of the time of its unanswered request. -/
def write (peer : PeerId) (held : Option Batch) (deed : Deed) : Option Batch :=
  deed.operations.foldl (Operation.write peer) held

def note (peer : PeerId) (owed : Option Instant) (deed : Deed) : Option Instant :=
  deed.operations.foldl (Operation.note peer) owed

variable {peer : PeerId} {deed : Deed} {batch : Batch} {b : Bearings} {s : Synchronizer}
  {time : Instant}

theorem notes_of_noted {operation : Operation} (performed : operation ∈ deed.operations)
    (noted : peer ∈ operation.noted?) : deed.Notes peer := by
  cases deed with
  | chose b s =>
    obtain ⟨r, planned, rfl⟩ := List.mem_map.1 performed
    cases noted
    exact List.mem_map_of_mem planned
  | stored target headers now =>
    cases List.mem_singleton.1 performed
    cases noted
    rfl
  | sent r now => cases performed
  | _ =>
    cases List.mem_singleton.1 performed
    cases noted

theorem write_chose (held : Option Batch) : (chose b s).write peer held = held := by
  rw [write, operations, List.foldl_map, List.foldl_fixed' fun _ => rfl]

theorem write_eq_some {held : Option Batch} (written : deed.write peer held = some batch) :
    deed = .stored peer batch.headers batch.since ∧ batch.headers ≠ [] ∨ held = some batch := by
  cases deed with
  | chose b t =>
    rw [write_chose] at written
    exact .inr written
  | sent r now => exact .inr written
  | stored target headers now =>
    have single : (Operation.store target headers now).write peer held = some batch := written
    rcases Operation.write_eq_some single with ⟨same, some_headers⟩ | before
    · cases same
      exact .inl ⟨rfl, some_headers⟩
    · exact .inr before
  | headersFrom target | refused r => exact .inr written
  | taken target count localBest =>
    have single : (Operation.take target count localBest).write peer held = some batch := written
    exact .inr ((Operation.write_eq_some single).resolve_left nofun)
  | cleared target =>
    have single : (Operation.clear target).write peer held = some batch := written
    exact .inr ((Operation.write_eq_some single).resolve_left nofun)
  | pruned localBest =>
    have single : (Operation.prune localBest).write peer held = some batch := written
    exact .inr ((Operation.write_eq_some single).resolve_left nofun)

theorem write_some_iff : deed.write peer (some batch) = some batch ↔ ¬ deed.Ends peer batch := by
  cases deed with
  | chose b t => simp [write_chose, Ends]
  | stored target headers now =>
    by_cases own : target = peer ∧ headers ≠ []
    · simp [write, operations, Operation.write, Ends, own, eq_comm]
    · simp only [write, operations, Operation.write, Ends, List.foldl_cons, List.foldl_nil,
        if_neg own]
      tauto
  | taken target count localBest =>
    by_cases own : target = peer
    · simp [write, operations, Operation.write, Ends, own, Option.filter_eq_some_iff]
    · simp [write, operations, Operation.write, Ends, own]
  | _ => simp [write, operations, Operation.write, Ends, Option.filter_eq_some_iff]

theorem held_eq_some_iff {log : List Deed} :
    Requests.held peer (log.flatMap operations) = some batch ↔ ∃ front back,
      log = front ++ Deed.stored peer batch.headers batch.since :: back ∧ batch.headers ≠ [] ∧
        ∀ deed ∈ back, ¬ deed.Ends peer batch := by
  have stores (some_headers : batch.headers ≠ []) (held : Option Batch) :
      (stored peer batch.headers batch.since).write peer held = some batch :=
    Operation.write_store_self some_headers held
  have keeps (held : Option Batch) (deed : Deed) (written : deed.write peer held = some batch) :
      (∀ other, deed.write peer other = some batch) ∨ held = some batch := by
    refine (write_eq_some written).imp_left ?_
    rintro ⟨rfl, some_headers⟩
    exact stores some_headers
  rw [Requests.held, List.foldl_flatMap]
  change log.foldl (Deed.write peer) none = some batch ↔ _
  rw [foldl_eq_some_iff keeps]
  constructor
  · rintro ⟨front, deed, back, rfl, written, kept⟩
    obtain ⟨rfl, some_headers⟩ := (write_eq_some written).resolve_right (Option.some_ne_none _).symm
    exact ⟨front, back, rfl, some_headers, fun deed member => write_some_iff.1 (kept deed member)⟩
  · rintro ⟨front, back, rfl, some_headers, kept⟩
    exact ⟨front, _, back, rfl, stores some_headers none,
      fun deed member => write_some_iff.2 (kept deed member)⟩

end Deed

/-- Nothing is noted of any peer, and no headers are asked for. -/
structure Synchronizer.Silent (s t : Synchronizer) : Prop where
  requests : t.requests = s.requests
  headerRequests : t.headerRequests = s.headerRequests

/-- How far a cycle has got, and who is still to be asked by it. -/
inductive Stage where
  | idle
  | begun (best : UInt64)
  | ready (b : Bearings)
  | asking (b : Bearings) (left : List (PeerInfo × Nat))
  /-- The transport has not taken the request to this peer, whose note is still there. -/
  | refused (b : Bearings) (p : PeerInfo × Nat) (left : List (PeerInfo × Nat))

/-- The requests that are still to be sent or forgotten. -/
def Stage.left : Stage → List HeaderRequest
  | idle | begun _ | ready _ => []
  | asking b left => left.map b.request
  | refused b p left => b.request p :: left.map b.request

/-- A run with its log, from empty tables. A cycle takes its steps, and between them headers come,
and batches are stored, matched, forgotten and pruned, at any time and in any order. All else
leaves the tables alone and asks for no headers. -/
inductive Requests.Run (capacity : Nat) : List Deed → Stage → Synchronizer → Prop
  | new {s} (fresh : s.requests = .new capacity) (unasked : s.headerRequests = []) :
      Run capacity [] .idle s
  | begin {log s} (before : Run capacity log .idle s) :
      Run capacity log (.begun s.chain.bestNumber) s
  | look {log best s} (before : Run capacity log (.begun best) s) :
      Run capacity log (.ready ⟨best, s.chain.total, s.now⟩) s
  | choose {log b s} (before : Run capacity log (.ready b) s) :
      Run capacity (log ++ [.chose b s]) (.asking b (s.choosePeers b).1.zipIdx)
        { s with requests := (s.choosePeers b).2 }
  | send {log b p left s t} (before : Run capacity log (.asking b (p :: left)) s)
      (taken : s.offerRequest p.1 b.start (Synchronizer.requestSize p.2) = (true, t)) :
      Run capacity (log ++ [.sent (b.request p) s.now]) (.asking b left) t
  | refuse {log b p left s t} (before : Run capacity log (.asking b (p :: left)) s)
      (refused : s.offerRequest p.1 b.start (Synchronizer.requestSize p.2) = (false, t)) :
      Run capacity log (.refused b p left) t
  | reset {log b p left s} (before : Run capacity log (.refused b p left) s) :
      Run capacity (log ++ [.refused (b.request p)]) (.asking b left)
        { s with requests := s.requests.noteAnswered p.1.peer }
  | finish {log b s} (before : Run capacity log (.asking b []) s) : Run capacity log .idle s
  | other {log stage s} (before : Run capacity log stage s) (deed : Deed)
      (plain : deed.ofCycle = false) :
      Run capacity (log ++ [deed]) stage
        { s with requests := s.requests.performAll deed.operations }
  | aside {log stage s t} (before : Run capacity log stage s) (silent : s.Silent t) :
      Run capacity log stage t

namespace Requests.Run

variable {capacity : Nat} {log front mid back : List Deed} {stage : Stage} {b : Bearings}
  {s t u : Synchronizer} {deed : Deed} {r : HeaderRequest} {peers : Finset PeerId} {peer : PeerId}

theorem requests_eq (h : Run capacity log stage s) :
    s.requests = run capacity (log.flatMap Deed.operations) := by
  induction h with
  | new fresh _ => exact fresh
  | begin _ ih | look _ ih | finish _ ih => exact ih
  | @choose log b s _ ih =>
    rw [List.flatMap_append, run_append, ← ih, List.flatMap_singleton]
    exact s.requests_choosePeers b
  | @send log b p left s t _ taken ih =>
    rw [List.flatMap_append, List.flatMap_singleton]
    change t.requests = run capacity (log.flatMap Deed.operations ++ [])
    rw [List.append_nil, ← ih]
    exact (Synchronizer.offerRequest_spec taken).1
  | refuse _ refused ih => exact (Synchronizer.offerRequest_spec refused).1.trans ih
  | @reset log b p left s _ ih =>
    rw [List.flatMap_append, run_append, ← ih, List.flatMap_singleton]
    rfl
  | @other log stage s _ deed _ ih =>
    rw [List.flatMap_append, run_append, ← ih, List.flatMap_singleton]
  | aside _ silent ih => exact silent.requests.trans ih

/-- A log with its last deed left out is that of a run too, and a choice is made when the cycle
is ready for it. -/
theorem of_concat (h : Run capacity (log ++ [deed]) stage s) :
    (∃ stage t, Run capacity log stage t) ∧
      ∀ b t, deed = .chose b t → Run capacity log (.ready b) t := by
  generalize split : log ++ [deed] = whole at h
  induction h with
  | new => simp at split
  | begin _ ih | look _ ih | refuse _ _ ih | finish _ ih | aside _ _ ih => exact ih split
  | choose before =>
    obtain ⟨rfl, same⟩ := List.append_inj' split rfl
    cases same
    refine ⟨⟨_, _, before⟩, fun b t chosen => ?_⟩
    cases chosen
    exact before
  | send before | reset before =>
    obtain ⟨rfl, same⟩ := List.append_inj' split rfl
    cases same
    exact ⟨⟨_, _, before⟩, fun _ _ chosen => Deed.noConfusion chosen⟩
  | other before deed plain =>
    obtain ⟨rfl, same⟩ := List.append_inj' split rfl
    cases same
    refine ⟨⟨_, _, before⟩, fun b t chosen => ?_⟩
    rw [chosen] at plain
    cases plain

theorem exists_part (h : Run capacity (front ++ back) stage s) :
    ∃ stage t, Run capacity front stage t := by
  induction back using List.reverseRecOn generalizing stage s with
  | nil => exact ⟨stage, s, by rwa [List.append_nil] at h⟩
  | append_singleton back deed ih =>
    rw [← List.append_assoc] at h
    obtain ⟨_, _, part⟩ := h.of_concat.1
    exact ih part

theorem before_choice (h : Run capacity (front ++ Deed.chose b t :: back) stage s) :
    Run capacity front (.ready b) t := by
  rw [List.append_cons] at h
  obtain ⟨_, _, part⟩ := h.exists_part
  exact part.of_concat.2 b t rfl

end Requests.Run

/-- No cycle chooses. -/
def Deed.Uncalled (log : List Deed) : Prop :=
  ∀ deed ∈ log, deed.isChoice = false

/-- The requests that were offered to the transport, in order. -/
def Deed.offers (log : List Deed) : List HeaderRequest :=
  log.filterMap Deed.offered?

namespace Deed

variable {log more : List Deed} {deed : Deed}

theorem uncalled_concat : Uncalled (log ++ [deed]) ↔ Uncalled log ∧ deed.isChoice = false := by
  simp [Uncalled, or_imp, forall_and]

theorem offers_append : offers (log ++ more) = offers log ++ offers more :=
  List.filterMap_append

theorem offers_concat : offers (log ++ [deed]) = offers log ++ deed.offered?.toList := by
  rw [offers_append]
  cases deed <;> rfl

end Deed

/-- What the last choice has planned is what was offered since, and then what is left. -/
structure Planned (log : List Deed) (stage : Stage) : Prop where
  last : ∀ front b t back, log = front ++ Deed.chose b t :: back → Deed.Uncalled back →
    t.plan b = Deed.offers back ++ stage.left
  none : Deed.Uncalled log → Deed.offers log = [] ∧ stage.left = []

theorem Planned.concat {log : List Deed} {stage next : Stage} {deed : Deed} (h : Planned log stage)
    (plain : deed.isChoice = false) (step : stage.left = deed.offered?.toList ++ next.left) :
    Planned (log ++ [deed]) next := by
  refine ⟨?_, ?_⟩
  · intro front b t back split uncalled
    rcases concat_eq_append_cons split with ⟨-, rfl, -⟩ | ⟨rest, rfl, rfl⟩
    · cases plain
    · have before := h.last front b t rest rfl (Deed.uncalled_concat.1 uncalled).1
      rw [before, step, Deed.offers_concat, List.append_assoc]
  · intro uncalled
    obtain ⟨offered, left⟩ := h.none (Deed.uncalled_concat.1 uncalled).1
    rw [step, List.append_eq_nil_iff] at left
    rw [Deed.offers_concat, offered, left.1]
    exact ⟨rfl, left.2⟩

theorem Planned.chosen (log : List Deed) (b : Bearings) (s : Synchronizer) :
    Planned (log ++ [.chose b s]) (.asking b (s.choosePeers b).1.zipIdx) := by
  refine ⟨?_, ?_⟩
  · intro front b' t back split uncalled
    rcases concat_eq_append_cons split with ⟨-, same, rfl⟩ | ⟨rest, -, rfl⟩
    · cases same
      rfl
    · cases (Deed.uncalled_concat.1 uncalled).2
  · intro uncalled
    cases (Deed.uncalled_concat.1 uncalled).2

namespace Requests.Run

variable {capacity : Nat} {log front mid back : List Deed} {stage : Stage} {b : Bearings}
  {s t u : Synchronizer} {deed : Deed} {r : HeaderRequest} {peers : Finset PeerId} {peer : PeerId}

theorem planned (h : Run capacity log stage s) : Planned log stage := by
  induction h with
  | new => exact ⟨by simp, fun _ => ⟨rfl, rfl⟩⟩
  | begin _ ih | look _ ih | refuse _ _ ih | finish _ ih => exact ⟨ih.last, ih.none⟩
  | choose => exact .chosen _ _ _
  | send _ _ ih | reset _ ih => exact ih.concat rfl rfl
  | other _ deed plain ih =>
    refine ih.concat ?_ ?_
    · cases deed with
      | chose => cases plain
      | _ => rfl
    · cases deed with
      | sent | refused => cases plain
      | _ => rfl
  | aside _ _ ih => exact ih

/-- A cycle that goes by these read the head of the chain when it began, and the total and the time
after that. It has not chosen since. -/
def Found (capacity : Nat) (log : List Deed) (b : Bearings) : Prop :=
  ∃ early mid late u v, log = early ++ mid ++ late ∧ Deed.Uncalled (mid ++ late) ∧
    Run capacity early .idle u ∧ Run capacity (early ++ mid) (.begun u.chain.bestNumber) v ∧
    b = ⟨u.chain.bestNumber, v.chain.total, v.now⟩

/-- Where the readings of a cycle come from that has not chosen yet. -/
def Knows (capacity : Nat) (log : List Deed) : Stage → Prop
  | .begun best => ∃ early mid u, log = early ++ mid ∧ Deed.Uncalled mid ∧
      Run capacity early .idle u ∧ best = u.chain.bestNumber
  | .ready b => Found capacity log b
  | _ => True

theorem Knows.concat (h : Knows capacity log stage) (plain : deed.isChoice = false) :
    Knows capacity (log ++ [deed]) stage := by
  cases stage with
  | begun best =>
    obtain ⟨early, mid, u, rfl, uncalled, idle, read⟩ := h
    exact ⟨early, mid ++ [deed], u, List.append_assoc _ _ _,
      Deed.uncalled_concat.2 ⟨uncalled, plain⟩, idle, read⟩
  | ready b =>
    obtain ⟨early, mid, late, u, v, rfl, uncalled, idle, begun, read⟩ := h
    refine ⟨early, mid, late ++ [deed], u, v, List.append_assoc _ _ _, ?_, idle, begun, read⟩
    rw [← List.append_assoc]
    exact Deed.uncalled_concat.2 ⟨uncalled, plain⟩
  | _ => trivial

theorem knows (h : Run capacity log stage s) : Knows capacity log stage := by
  induction h with
  | @begin log s before =>
    exact ⟨log, [], s, (List.append_nil _).symm, fun _ member => absurd member List.not_mem_nil,
      before, rfl⟩
  | @look log best s before ih =>
    obtain ⟨early, mid, u, rfl, uncalled, idle, rfl⟩ := ih
    exact ⟨early, mid, [], u, s, (List.append_nil _).symm, by rwa [List.append_nil], idle, before,
      rfl⟩
  | other _ deed plain ih =>
    refine ih.concat ?_
    cases deed with
    | chose => cases plain
    | _ => rfl
  | aside _ _ ih => exact ih
  | _ => trivial

theorem found (h : Run capacity (front ++ Deed.chose b t :: back) stage s) :
    Found capacity front b :=
  h.before_choice.knows

end Requests.Run

end BlockSync
