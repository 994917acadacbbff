import BlockSync.Proofs.Chain.Canonical
import BlockSync.Proofs.Sync.Moves
import BlockSync.Proofs.Work.Pool

/-! What is true of the jobs of a crew under every schedule. The pool on its clock is such a crew,
and so is the import queue of a synchronizer, which has one worker: its batches and cycles run one
after the other, in the order in which they were queued. -/
namespace BlockSync

/-- The queue with one worker that waits for nothing but jobs. -/
def Backlog.crew {α : Type} (b : Backlog α) : Crew α :=
  { capacity := b.capacity, workers := [.idle], queue := b.jobs, waiting := [], line := []
    accepting := b.accepting }

namespace Synchronizer

open Crew (Action)

variable {s t : Synchronizer} {job : ImportJob}

theorem perform_push {importJobs : Backlog ImportJob}
    (taken : s.importJobs.push? job = some importJobs) :
    (s.importJobs.crew.perform (.trySubmit job)).2 = importJobs.crew := by
  have room : s.importJobs.HasRoom := by
    by_contra full
    rw [Backlog.push?_of_full full] at taken
    cases taken
  rw [Backlog.push?_of_room room] at taken
  cases taken
  simp [Crew.perform, Crew.trySubmit, Crew.isClosed, Crew.hasEnded, Crew.hasRoom, Crew.push,
    Backlog.crew, Worker.isEnded, room.accepting, room.short]

/-- The worker stands in line, takes the job and is done with it before anything else happens. -/
theorem run_next {importJobs : Backlog ImportJob}
    (next : s.importJobs.next? = some (job, importJobs)) :
    (s.importJobs.crew.run [.standInLine 0, .take 0, .finish 0]).2 = importJobs.crew := by
  unfold Backlog.next? at next
  split at next
  · cases next
  · rename_i rest queue
    cases next
    simp [Crew.run, Crew.perform, Crew.standInLine, Crew.take?, Crew.finish?, Backlog.crew, queue]

theorem Moves.crew (moves : Moves s t) :
    ∃ actions : List (Action ImportJob),
      (s.importJobs.crew.run actions).2 = t.importJobs.crew := by
  induction moves with
  | elsewhere h => exact ⟨[], by rw [h.importJobs]; rfl⟩
  | offer s status => exact ⟨[], rfl⟩
  | ask s =>
    by_cases wanted : s.cycleQueued = false ∧ s.importJobs.HasRoom
    · have taken := Backlog.push?_of_room wanted.2 ImportJob.cycle
      have kept := elsewhere_wake { s with
        importJobs := { s.importJobs with jobs := s.importJobs.jobs ++ [ImportJob.cycle] }
        cycleQueued := true } .imports
      rw [queueCycle_of_room wanted.1 wanted.2, kept.importJobs]
      exact ⟨[.trySubmit .cycle], perform_push taken⟩
    · rw [queueCycle_of_none wanted]
      exact ⟨[], rfl⟩
  | queue batch room => exact ⟨[.trySubmit _], perform_push room⟩
  | batch batch next => exact ⟨_, run_next next⟩
  | cycle next => exact ⟨_, run_next next⟩
  | close s => exact ⟨[.close], rfl⟩
  | trans _ _ first second =>
    obtain ⟨actions, ran⟩ := first
    obtain ⟨others, further⟩ := second
    refine ⟨actions ++ others, ?_⟩
    rw [Crew.run_append, ran]
    exact further

theorem crew_of_reachable {genesis : Block} (reachable : Reachable genesis s) :
    ∃ actions : List (Action ImportJob),
      ((Crew.new 1 importQueue).run actions).2 = s.importJobs.crew := by
  induction reachable with
  | new => exact ⟨[], rfl⟩
  | step _ step ih =>
    obtain ⟨actions, ran⟩ := ih
    obtain ⟨others, further⟩ := (Moves.step step).crew
    refine ⟨actions ++ others, ?_⟩
    rw [Crew.run_append, ran]
    exact further

end Synchronizer

namespace Crew

open Synchronizer (Reachable importQueue)

variable {α : Type}

/-- In whatever order submitters, workers and the owner of a crew act: jobs start in the order in
which they were accepted, each at most once, and those that started are over or still run; no
more run than there are workers, and no more wait than there is room for. A job that was refused
does not start. A single worker takes a job only when all that were accepted before are finished.
A closed crew refuses every submission, and has work until its workers have left; if none was
made to stop and no job failed, all that was accepted is finished by then. What is asked of a
pool comes down to such actions, its answers are those of its crew, and a shutdown that does not
use up its time makes no worker stop; the import queue of a synchronizer comes of such actions
too, with a single worker. -/
theorem jobs_of_actions (workers capacity : Nat) (actions : List (Action α)) :
    let c := ((new workers capacity).run actions).2
    let events := ((new workers capacity).run actions).1
    let accepted := jobs .accepted events
    let started := jobs .started events
    let finished := jobs .finished events
    Answered events c ∧
    accepted = started ++ c.queue ++ jobs .discarded events ∧
    started.Perm (finished ++ jobs .lost events ++ c.running) ∧
    c.running.length ≤ max 1 workers ∧ c.queue.length ≤ max 1 capacity ∧
    ((jobs .submitted events).Nodup → ∀ job ∈ jobs .refused events, job ∉ started) ∧
    (workers ≤ 1 → ∀ worker job d, c.take? worker = some (job, d) →
      started = finished ∧ ∃ later, accepted = finished ++ job :: later) ∧
    (Action.close ∈ actions → Dwindles c ∧
      ∀ job, c.trySubmit job = (.error .shutDown, c) ∧ c.enter job = .error .shutDown) ∧
    ((∀ action ∈ actions, action.spares = true) → c.hasEnded = true → accepted.Perm finished) ∧
    (∀ p q : Pool, p.Step q → p.Runs q) ∧
    (∀ (p : Pool) (job : Job), (p.trySubmit job).1 = (p.toCrew.trySubmit job).1 ∧
      (p.trySubmit job).2.toCrew = (p.toCrew.trySubmit job).2) ∧
    (∀ (p : Pool) (job : Job) (patience : Duration),
      p.Submits job patience (p.submit job patience).1 (p.submit job patience).2.toCrew) ∧
    (∀ (p : Pool) (grace : Duration),
      let result := p.shutDown grace
      p.Leads result.2 ∧
      (p.accepting = true → result.1 < grace → result.2.hasEnded = true ∧ p.Runs result.2)) ∧
    ∀ genesis s, Reachable genesis s → ∃ imports : List (Action ImportJob),
      ((new 1 importQueue).run imports).2 = s.importJobs.crew := by
  intro c events accepted started finished
  have kept : Kept workers capacity events c :=
    run_induction (Kept workers capacity) (fun _ => True) (fun h _ => h.perform _)
      (fun _ _ => trivial) [] .new
  have answered : Answered events c :=
    run_induction Answered (fun _ => True) (fun h _ => h.perform _) (fun _ _ => trivial) []
      (List.Perm.refl _)
  refine ⟨answered, kept.order, kept.fates, kept.running_le, kept.capacity ▸ kept.room, ?_, ?_, ?_,
    ?_, fun p q => Pool.Step.runs, Pool.trySubmit_spec, Pool.submit_spec, Pool.shutDown_spec,
    fun genesis s => Synchronizer.crew_of_reachable⟩
  · exact fun distinct job refused => kept.not_started (answered.not_accepted distinct refused)
  · exact fun few worker job d taken => kept.take_alone few taken
  · intro shut
    have closed : c.accepting = false := closed_run shut
    refine ⟨kept.dwindles closed, fun job => ⟨?_, ?_⟩⟩
    · simp [trySubmit, isClosed, closed]
    · simp [enter, closed]
  · exact fun fair ended => kept.finished (unhurt_run fair) ended

/-- One worker with room for one job: while it runs the first job, the second is queued, the third
waits for room and the fourth is refused. After the close it runs the other two, and leaves. -/
theorem jobs_of_four_submissions :
    let opening : List (Action Nat) :=
      [.trySubmit 1, .standInLine 0, .take 0, .trySubmit 2, .enter 3, .trySubmit 4, .close,
        .finish 0, .standInLine 0]
    let actions := opening ++ [.take 0, .letIn 0, .finish 0, .standInLine 0, .take 0, .finish 0,
      .standInLine 0, .leave 0]
    let c := ((new 1 1).run actions).2
    let events := ((new 1 1).run actions).1
    let before := ((new 1 1).run opening).1
    let s : Synchronizer := .new {} (fun _ => .ok ()) (.history Chain.Fork.start {} []) 0
    (∃ later, jobs .accepted before = jobs .finished before ++ 2 :: later) ∧
    4 ∉ jobs .started events ∧ c.trySubmit 5 = (.error .shutDown, c) ∧
    c.hasEnded = true ∧ (jobs .accepted events).Perm (jobs .finished events) ∧
    (Pool.new 1 1).Runs ((Pool.new 1 1).trySubmit ⟨"a", none, none, false⟩).2 ∧
    ((Pool.new 1 1).trySubmit ⟨"a", none, none, false⟩).2.queue = [⟨"a", none, none, false⟩] ∧
    ((Pool.new 1 1).shutDown 1).2.hasEnded = true ∧
    ∃ imports : List (Action ImportJob),
      ((new 1 importQueue).run imports).2 = s.importJobs.crew := by
  intro opening actions c events before s
  obtain ⟨-, -, -, -, -, -, alone, -⟩ := jobs_of_actions 1 1 opening
  obtain ⟨-, -, -, -, -, refused, -, closed, drained, asked, answers, -, stopped, queued⟩ :=
    jobs_of_actions 1 1 actions
  refine ⟨(alone (by decide) 0 2 _ rfl).2, refused ?_ 4 ?_, ?_, rfl, drained ?_ rfl,
    asked _ _ (.trySubmit _ _), congrArg Crew.queue (answers _ _).2, ((stopped _ 1).2 rfl ?_).1,
    queued Chain.Fork.start s (.new _ _ _ _ _)⟩
  · decide
  · decide
  · exact ((closed (by decide)).2 5).1
  · decide
  · decide

end Crew

end BlockSync
