import BlockSync.Proofs.Chain.Canonical
import BlockSync.Proofs.Sync.Moves
import Mathlib.Data.List.Perm.Basic

/-! Many who ask for a cycle at once. Each sets the mark, offers the cycle to the queue and takes
the mark back if there is no room; between these steps others ask, jobs begin and the queue fills
or closes. The mark is set exactly while one cycle waits or is being offered. -/
namespace BlockSync

/-- How far somebody has come who asks for a cycle. -/
inductive Caller where
  | offers
  /-- There was no room, and the mark is still to be taken back. -/
  | retracts
  | returned
  /-- Found the mark set. -/
  | dismissed
  deriving DecidableEq, Repr

def Caller.isBusy : Caller → Bool
  | offers => true
  | retracts => true
  | returned => false
  | dismissed => false

/-- A synchronizer, and all who have ever asked it for a cycle. -/
structure Scene where
  sync : Synchronizer
  callers : List Caller

namespace Scene

/-- What can happen between any two steps. -/
inductive Action where
  | call
  | offer (caller : Nat)
  | retract (caller : Nat)
  | queue (displayId : String) (blocks : List Block)
  /-- The next job begins; a cycle begins by clearing the mark. -/
  | start
  | close
  /-- Anything that leaves the import queue and the mark alone. -/
  | elsewhere (after : Synchronizer)

def alone (s : Synchronizer) : Scene :=
  ⟨s, []⟩

/-- Whoever finds no mark sets it. -/
def call (scene : Scene) : Scene :=
  if scene.sync.cycleQueued then ⟨scene.sync, scene.callers ++ [.dismissed]⟩
  else ⟨{ scene.sync with cycleQueued := true }, scene.callers ++ [.offers]⟩

def offer (scene : Scene) (caller : Nat) : Scene :=
  if scene.callers[caller]? = some .offers then
    match scene.sync.importJobs.push? .cycle with
    | some importJobs =>
      ⟨{ scene.sync with importJobs }.wake .imports, scene.callers.set caller .returned⟩
    | none => ⟨scene.sync, scene.callers.set caller .retracts⟩
  else scene

def retract (scene : Scene) (caller : Nat) : Scene :=
  if scene.callers[caller]? = some .retracts then
    ⟨{ scene.sync with cycleQueued := false }, scene.callers.set caller .returned⟩
  else scene

/-- A batch gets in while there is room, even into a closed queue: its sender may have waited
since before. -/
def queue (scene : Scene) (displayId : String) (blocks : List Block) : Scene :=
  if scene.sync.importJobs.isFull then scene
  else
    let jobs := scene.sync.importJobs.jobs ++ [.batch displayId blocks]
    ⟨{ scene.sync with importJobs := { scene.sync.importJobs with jobs } }, scene.callers⟩

def start (scene : Scene) : Scene :=
  match scene.sync.importJobs.next? with
  | some (.cycle, importJobs) =>
    ⟨{ scene.sync with importJobs, cycleQueued := false }, scene.callers⟩
  | some (.batch _ _, importJobs) => ⟨{ scene.sync with importJobs }, scene.callers⟩
  | none => scene

def elsewhere (scene : Scene) (after : Synchronizer) : Scene :=
  ⟨{ after with importJobs := scene.sync.importJobs, cycleQueued := scene.sync.cycleQueued },
    scene.callers⟩

def perform (scene : Scene) : Action → Scene
  | .call => scene.call
  | .offer caller => scene.offer caller
  | .retract caller => scene.retract caller
  | .queue displayId blocks => scene.queue displayId blocks
  | .start => scene.start
  | .close => ⟨{ scene.sync with importJobs := scene.sync.importJobs.close }, scene.callers⟩
  | .elsewhere after => scene.elsewhere after

def run (scene : Scene) (actions : List Action) : Scene :=
  actions.foldl perform scene

/-- How many cycles wait in the import queue. -/
def waiting (scene : Scene) : Nat :=
  scene.sync.importJobs.jobs.count .cycle

/-- How many callers have set the mark and are not done with the queue. -/
def offering (scene : Scene) : Nat :=
  scene.callers.countP Caller.isBusy

/-- The mark tells how many cycles wait or are being offered. -/
def Marked (scene : Scene) : Prop :=
  scene.waiting + scene.offering = scene.sync.cycleQueued.toNat

variable {scene : Scene} {callers : List Caller} {before : Caller} {i : Nat}

/-- Who moves on changes the number of busy callers by the difference. -/
theorem countP_set_isBusy (held : callers[i]? = some before) (after : Caller) :
    (callers.set i after).countP Caller.isBusy + before.isBusy.toNat =
      callers.countP Caller.isBusy + after.isBusy.toNat := by
  obtain ⟨short, rfl⟩ := List.getElem?_eq_some_iff.1 held
  have out := (List.set_perm_cons_eraseIdx short after).countP_eq Caller.isBusy
  have inside := (List.getElem_cons_eraseIdx_perm short).countP_eq Caller.isBusy
  rw [List.countP_cons] at out inside
  rw [out, ← inside]
  cases after.isBusy <;> cases (callers[i]).isBusy <;> simp

namespace Marked

theorem call (h : scene.Marked) : scene.call.Marked := by
  unfold Marked waiting offering at h ⊢
  unfold Scene.call
  split
  · simpa [Caller.isBusy] using h
  · rename_i unmarked
    rw [Bool.eq_false_iff.2 unmarked] at h
    simp only [List.countP_append, List.countP_singleton, Caller.isBusy, if_true, Bool.toNat_true,
      Bool.toNat_false] at h ⊢
    omega

theorem offer (h : scene.Marked) (caller : Nat) : (scene.offer caller).Marked := by
  unfold Scene.offer
  split
  · rename_i held
    by_cases room : scene.sync.importJobs.HasRoom
    · have moved := countP_set_isBusy held .returned
      have kept := Synchronizer.elsewhere_wake { scene.sync with
        importJobs := { scene.sync.importJobs with
          jobs := scene.sync.importJobs.jobs ++ [ImportJob.cycle] } } .imports
      rw [Backlog.push?_of_room room]
      unfold Marked waiting offering at h ⊢
      rw [kept.importJobs, kept.cycleQueued]
      simp only [List.count_append, List.count_singleton_self, Caller.isBusy, Bool.toNat_true,
        Bool.toNat_false] at moved ⊢
      omega
    · have moved := countP_set_isBusy held .retracts
      rw [Backlog.push?_of_full room]
      unfold Marked waiting offering at h ⊢
      simp only [Caller.isBusy, Bool.toNat_true] at moved ⊢
      omega
  · exact h

/-- Only the one who set the mark takes it back, so no cycle waits by then. -/
theorem retract (h : scene.Marked) (caller : Nat) : (scene.retract caller).Marked := by
  unfold Scene.retract
  split
  · rename_i held
    have moved := countP_set_isBusy held .returned
    have bound := Bool.toNat_le scene.sync.cycleQueued
    unfold Marked waiting offering at h ⊢
    simp only [Caller.isBusy, Bool.toNat_true, Bool.toNat_false] at moved ⊢
    omega
  · exact h

theorem queue (h : scene.Marked) (displayId : String) (blocks : List Block) :
    (scene.queue displayId blocks).Marked := by
  unfold Scene.queue
  split
  · exact h
  · simpa [Marked, waiting, offering] using h

/-- A cycle that begins waited, so nobody else offers one when the mark is cleared. -/
theorem start (h : scene.Marked) : scene.start.Marked := by
  have bound := Bool.toNat_le scene.sync.cycleQueued
  unfold Marked waiting offering at h ⊢
  unfold Scene.start Backlog.next?
  cases jobs : scene.sync.importJobs.jobs with
  | nil => simpa [jobs] using h
  | cons job rest =>
    rw [jobs] at h
    cases job with
    | batch displayId blocks => simpa using h
    | cycle =>
      rw [List.count_cons_self] at h
      simp only [Bool.toNat_false]
      omega

theorem perform (h : scene.Marked) (action : Action) : (scene.perform action).Marked := by
  cases action with
  | call => exact h.call
  | offer caller => exact h.offer caller
  | retract caller => exact h.retract caller
  | queue displayId blocks => exact h.queue displayId blocks
  | start => exact h.start
  | close => exact h
  | elsewhere after => exact h

theorem run (h : scene.Marked) (actions : List Action) : (scene.run actions).Marked := by
  induction actions generalizing scene with
  | nil => exact h
  | cons action rest ih => exact ih (h.perform action)

end Marked

theorem run_append (scene : Scene) (actions more : List Action) :
    scene.run (actions ++ more) = (scene.run actions).run more :=
  List.foldl_append

/-- Somebody asks for a cycle, and nothing else happens meanwhile. -/
def asking (caller : Nat) : List Action :=
  [.call, .offer caller, .retract caller]

theorem run_asking (s : Synchronizer) (callers : List Caller) :
    ∃ last, last.isBusy = false ∧
      run ⟨s, callers⟩ (asking callers.length) = ⟨s.queueCycle, callers ++ [last]⟩ := by
  unfold asking run
  simp only [List.foldl_cons, List.foldl_nil, perform]
  by_cases marked : s.cycleQueued = true
  · refine ⟨.dismissed, rfl, ?_⟩
    have asked : s.queueCycle = s := Synchronizer.queueCycle_of_none fun idle => by
      rw [idle.1] at marked
      cases marked
    simp [call, offer, retract, marked, asked]
  · rw [Bool.not_eq_true] at marked
    refine ⟨.returned, rfl, ?_⟩
    by_cases room : s.importJobs.HasRoom
    · rw [Synchronizer.queueCycle_of_room marked room]
      simp [call, offer, retract, marked, Backlog.push?_of_room room]
    · have cleared : { s with cycleQueued := false } = s := by
        rw [← marked]
      rw [Synchronizer.queueCycle_of_none fun idle => room idle.2]
      simp [call, offer, retract, marked, Backlog.push?_of_full room, cleared]

/-- What a synchronizer does is a run in which nobody is left half way. -/
theorem run_of_moves {s t : Synchronizer} (moves : s.Moves t) (callers : List Caller)
    (idle : callers.countP Caller.isBusy = 0) :
    ∃ actions more, more.countP Caller.isBusy = 0 ∧ run ⟨s, callers⟩ actions = ⟨t, more⟩ := by
  induction moves generalizing callers with
  | @elsewhere s t h =>
    refine ⟨[.elsewhere t], callers, idle, ?_⟩
    unfold run
    simp only [List.foldl_cons, List.foldl_nil, perform, elsewhere]
    rw [← h.importJobs, ← h.cycleQueued]
  | offer s status =>
    exact ⟨[.elsewhere { s with view := (s.view.offer s.now status).2 }], callers, idle, rfl⟩
  | ask s =>
    obtain ⟨last, done, asked⟩ := run_asking s callers
    exact ⟨_, _, by simp [idle, done], asked⟩
  | @queue s job importJobs batch taken =>
    cases job with
    | cycle => exact absurd rfl batch
    | batch displayId blocks =>
      have room : s.importJobs.HasRoom := by
        by_contra full
        rw [Backlog.push?_of_full full] at taken
        cases taken
      have short : s.importJobs.isFull = false := by
        simpa [Backlog.isFull] using room.short
      rw [Backlog.push?_of_room room] at taken
      cases taken
      exact ⟨[.queue displayId blocks], callers, idle, by simp [run, perform, queue, short]⟩
  | @batch s job importJobs batch next =>
    cases job with
    | cycle => exact absurd rfl batch
    | batch displayId blocks => exact ⟨[.start], callers, idle, by simp [run, perform, start, next]⟩
  | cycle next => exact ⟨[.start], callers, idle, by simp [run, perform, start, next]⟩
  | close s => exact ⟨[.close], callers, idle, rfl⟩
  | trans _ _ first second =>
    obtain ⟨actions, middle, idle, ran⟩ := first callers idle
    obtain ⟨more, last, idle, further⟩ := second middle idle
    exact ⟨actions ++ more, last, idle, by rw [run_append, ran, further]⟩

open Synchronizer (Reachable)

theorem run_of_reachable {genesis : Block} {s : Synchronizer} (reachable : Reachable genesis s) :
    ∃ config validate chain started actions callers, callers.countP Caller.isBusy = 0 ∧
      (alone (.new config validate chain started)).run actions = ⟨s, callers⟩ := by
  induction reachable with
  | new config validate chainConfig deliveries started =>
    exact ⟨config, validate, _, started, [], [], rfl, rfl⟩
  | step _ step ih =>
    obtain ⟨config, validate, chain, started, actions, callers, idle, ran⟩ := ih
    obtain ⟨more, last, idle, further⟩ := run_of_moves (Synchronizer.Moves.step step) callers idle
    exact ⟨config, validate, chain, started, actions ++ more, last, idle,
      by rw [run_append, ran, further]⟩

/-- Whoever asks for a cycle, whatever is queued and whichever jobs begin in between: at most one
cycle waits or is being offered, and the mark is set exactly while one does. So whoever finds the
mark set comes while a cycle is still to begin or is being offered. One who asks with nobody else
about does what a synchronizer does, and every state that a synchronizer gets into comes of such
a run with nobody left half way. -/
theorem mark_of_actions (config : SyncConfig) (validate : Validator) (chain : Chain)
    (started : Instant) (actions : List Action) :
    let scene := (alone (.new config validate chain started)).run actions
    let cycles := scene.waiting + scene.offering
    cycles ≤ 1 ∧ (scene.sync.cycleQueued = true ↔ cycles = 1) ∧
    (scene.call.callers = scene.callers ++ [.dismissed] → cycles = 1) ∧
    (∀ s : Synchronizer, ((alone s).run (asking 0)).sync = s.queueCycle) ∧
    ∀ genesis s, Reachable genesis s → ∃ config validate chain started actions callers,
      callers.countP Caller.isBusy = 0 ∧
      (alone (.new config validate chain started)).run actions = ⟨s, callers⟩ := by
  intro scene cycles
  -- Nobody has asked yet, nothing waits, and there is no mark.
  have begun : (alone (.new config validate chain started)).Marked := rfl
  have marked : cycles = scene.sync.cycleQueued.toNat := begun.run actions
  have set : scene.sync.cycleQueued = true ↔ cycles = 1 := by
    rw [marked]
    cases scene.sync.cycleQueued <;> decide
  refine ⟨?_, set, ?_, ?_, ?_⟩
  · rw [marked]
    exact Bool.toNat_le _
  · intro sent
    unfold call at sent
    split at sent
    · rename_i found
      exact set.1 found
    · have last := List.append_cancel_left sent
      cases last
  · intro s
    obtain ⟨last, -, ran⟩ := run_asking s []
    exact congrArg sync ran
  · exact fun genesis s reachable => run_of_reachable reachable

/-- Of two who ask at once the second is dismissed, and one cycle is queued. -/
theorem mark_of_two_callers :
    let s : Synchronizer := .new {} (fun _ => .ok ()) (.history Chain.Fork.start {} []) 0
    let actions : List Action := [.call, .call, .offer 0]
    let scene := (alone s).run actions
    scene.callers = [.returned, .dismissed] ∧ scene.waiting = 1 ∧ scene.sync.cycleQueued = true ∧
    scene.waiting + scene.offering = 1 ∧
    ∃ config validate chain started actions callers, callers.countP Caller.isBusy = 0 ∧
      (alone (.new config validate chain started)).run actions = ⟨s, callers⟩ := by
  intro s actions scene
  obtain ⟨-, set, late, -, reached⟩ :=
    mark_of_actions {} (fun _ => .ok ()) (.history Chain.Fork.start {} []) 0 actions
  exact ⟨rfl, rfl, set.2 rfl, late rfl, reached Chain.Fork.start s (.new _ _ _ _ _)⟩

end Scene

end BlockSync
