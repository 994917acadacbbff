import BlockSync.Proofs.Work.Crew
import Mathlib.Data.List.Perm.Basic

/-! The account of the jobs of a crew. Each job that was submitted was accepted or not, each that
was accepted started or waits in the queue, in the order of acceptance, and each that started is
over or still runs. No schedule can lose a job or run it twice. -/
namespace BlockSync

/-- One element of a list is replaced by another. -/
theorem set_perm {α : Type} {l : List α} {i : Nat} {before : α} (held : l[i]? = some before)
    (after : α) : (before :: l.set i after).Perm (after :: l) := by
  obtain ⟨short, rfl⟩ := List.getElem?_eq_some_iff.1 held
  have out := List.set_perm_cons_eraseIdx short after
  have inside := List.getElem_cons_eraseIdx_perm short
  exact ((out.cons _).trans (.swap _ _ _)).trans (inside.cons _)

namespace Crew

variable {α : Type} {c d : Crew α} {events more : List (Event α)} {stage : Stage} {job : α}
  {i worker : Nat}

def running (c : Crew α) : List α :=
  c.workers.filterMap Worker.job?

theorem hasEnded_of_held {state : Worker α} (held : c.workers[worker]? = some state)
    (alive : state.isEnded = false) : c.hasEnded = false := by
  unfold hasEnded
  rw [List.all_eq_false]
  exact ⟨state, List.mem_of_getElem? held, by rw [alive]; decide⟩

theorem held_set {state : Worker α} (held : c.workers[worker]? = some state)
    (after : Worker α) : (c.workers.set worker after)[worker]? = some after := by
  obtain ⟨short, -⟩ := List.getElem?_eq_some_iff.1 held
  exact List.getElem?_set_self short

theorem hasEnded_retire (ended : c.hasEnded = true) : (c.retire worker).hasEnded = true := by
  unfold hasEnded at ended ⊢
  rw [List.all_eq_true] at ended ⊢
  intro state held
  rcases List.mem_or_eq_of_mem_set held with old | rfl
  · exact ended state old
  · rfl

/-- The jobs that run, before and after a worker comes to another state. -/
theorem running_set {state : Worker α} (held : c.workers[worker]? = some state)
    (after : Worker α) :
    (state.job?.toList ++ (c.workers.set worker after).filterMap Worker.job?).Perm
      (after.job?.toList ++ c.running) := by
  have swapped := (set_perm held after).filterMap Worker.job?
  unfold running
  rw [List.filterMap_cons, List.filterMap_cons] at swapped
  cases old : state.job? <;> cases new : after.job? <;> simpa [old, new] using swapped

/-- What is always true of a crew after all that was told: who stands in line is idle, jobs start
in the order in which they were accepted, and each that started is over or still runs. -/
structure Kept (workers capacity : Nat) (events : List (Event α)) (c : Crew α) : Prop where
  size : c.workers.length = max 1 workers
  capacity : c.capacity = max 1 capacity
  line : c.line.Nodup
  idle : ∀ worker ∈ c.line, c.workers[worker]? = some .idle
  room : c.queue.length ≤ c.capacity
  order : jobs .accepted events = jobs .started events ++ c.queue ++ jobs .discarded events
  emptied : c.hasEnded = true → c.queue = []
  kept : c.hasEnded = false → jobs .discarded events = []
  fates : (jobs .started events).Perm (jobs .finished events ++ jobs .lost events ++ c.running)
  unhurt : .ended ∉ c.workers → jobs .lost events = []
  single : c.workers.length = 1 →
    jobs .started events = jobs .finished events ++ jobs .lost events ++ c.running

/-- Nothing is told but how submitters fare that get no job in. -/
def Quiet (events : List (Event α)) : Prop :=
  ∀ e ∈ events, e.stage = .submitted ∨ e.stage = .refused ∨ e.stage = .withdrawn

theorem Quiet.jobs (quiet : Quiet events)
    (other : stage ≠ .submitted ∧ stage ≠ .refused ∧ stage ≠ .withdrawn) :
    jobs stage events = [] := by
  unfold Crew.jobs
  rw [List.map_eq_nil_iff, List.filter_eq_nil_iff]
  intro e told same
  have same : e.stage = stage := by simpa using same
  rw [← same] at other
  rcases quiet e told with found | found | found <;> simp [found] at other

namespace Kept

variable {workers capacity : Nat}

theorem new : Kept workers capacity [] (new workers capacity : Crew α) where
  size := List.length_replicate
  capacity := rfl
  line := .nil
  idle := by nofun
  room := Nat.zero_le _
  order := rfl
  emptied _ := rfl
  kept _ := rfl
  fates := by simp [running, Crew.new, Worker.job?]
  unhurt _ := rfl
  single _ := by simp [running, Crew.new, Worker.job?]

theorem aside (h : Kept workers capacity events c) (quiet : Quiet more) (waiting : List α)
    (accepting : Bool) : Kept workers capacity (events ++ more) { c with waiting, accepting } := by
  have none (stage : Stage)
      (other : stage ≠ .submitted ∧ stage ≠ .refused ∧ stage ≠ .withdrawn) :
      jobs stage (events ++ more) = jobs stage events := by
    rw [jobs_append, quiet.jobs other, List.append_nil]
  have accepted := none .accepted (by decide)
  have started := none .started (by decide)
  have finished := none .finished (by decide)
  have lost := none .lost (by decide)
  have discarded := none .discarded (by decide)
  refine ⟨h.size, h.capacity, h.line, h.idle, h.room, ?_, h.emptied, ?_, ?_, ?_, ?_⟩
  · rw [accepted, started, discarded]
    exact h.order
  · rw [discarded]
    exact h.kept
  · rw [started, finished, lost]
    exact h.fates
  · rw [lost]
    exact h.unhurt
  · rw [started, finished, lost]
    exact h.single

theorem push (h : Kept workers capacity events c) (job : α) (alive : c.hasEnded = false)
    (room : c.queue.length < c.capacity) :
    Kept workers capacity (events ++ [⟨.accepted, job⟩]) (c.push job) := by
  have none (stage : Stage) (other : stage ≠ .accepted) :
      jobs stage (events ++ [⟨.accepted, job⟩]) = jobs stage events := by
    rw [jobs_append, jobs_cons, if_neg other.symm]
    exact List.append_nil _
  have started := none .started (by decide)
  have finished := none .finished (by decide)
  have lost := none .lost (by decide)
  have discarded := none .discarded (by decide)
  refine ⟨h.size, h.capacity, h.line, h.idle, ?_, ?_, ?_, ?_, ?_, ?_, ?_⟩
  · unfold Crew.push
    rw [List.length_append]
    exact room
  · rw [started, discarded, h.kept alive]
    simp [Crew.push, h.order, h.kept alive]
  · intro ended
    exact absurd (alive.symm.trans ended) Bool.false_ne_true
  · rw [discarded]
    exact h.kept
  · rw [started, finished, lost]
    exact h.fates
  · rw [lost]
    exact h.unhurt
  · rw [started, finished, lost]
    exact h.single

theorem stand (h : Kept workers capacity events c) (idle : c.workers[worker]? = some .idle)
    (absent : worker ∉ c.line) :
    Kept workers capacity events { c with line := c.line ++ [worker] } := by
  refine ⟨h.size, h.capacity, ?_, ?_, h.room, h.order, h.emptied, h.kept, h.fates, h.unhurt,
    h.single⟩
  · have apart : ∀ other ∈ c.line, other ≠ worker := fun other inside same => absent (same ▸ inside)
    simpa [List.nodup_append] using ⟨h.line, apart⟩
  · intro other inside
    rcases List.mem_append.1 inside with old | new
    · exact h.idle other old
    · rw [List.mem_singleton.1 new]
      exact idle

theorem eq_singleton {state : Worker α} (one : c.workers.length = 1)
    (held : c.workers[worker]? = some state) : c.workers = [state] ∧ worker = 0 := by
  obtain ⟨only, alone⟩ := List.length_eq_one_iff.1 one
  obtain ⟨short, -⟩ := List.getElem?_eq_some_iff.1 held
  have first : worker = 0 := by omega
  rw [alone, first] at held
  cases held
  exact ⟨alone, first⟩

theorem ended_set {state after : Worker α} (held : c.workers[worker]? = some state)
    (alive : state.isEnded = false) (absent : .ended ∉ c.workers.set worker after) :
    .ended ∉ c.workers := by
  intro gone
  have swapped := set_perm held after
  have either := swapped.mem_iff.2 (List.mem_cons_of_mem after gone)
  rcases List.mem_cons.1 either with same | still
  · rw [← same] at alive
    cases alive
  · exact absent still

theorem take (h : Kept workers capacity events c) {line : List Nat} {queue : List α}
    (first : c.line = worker :: line) (next : c.queue = job :: queue) :
    Kept workers capacity (events ++ [⟨.started, job⟩])
      { c with queue, line, workers := c.workers.set worker (.busy job) } := by
  have idle : c.workers[worker]? = some .idle := h.idle worker (by simp [first])
  have alive : c.hasEnded = false := hasEnded_of_held idle rfl
  have distinct := h.line
  have room := h.room
  rw [first, List.nodup_cons] at distinct
  rw [next] at room
  refine ⟨?_, h.capacity, distinct.2, ?_, Nat.le_of_succ_le room, ?_, ?_, ?_, ?_, ?_, ?_⟩
  · rw [List.length_set]
    exact h.size
  · intro other inside
    have apart : worker ≠ other := fun same => distinct.1 (same ▸ inside)
    rw [List.getElem?_set_ne apart]
    exact h.idle other (by simp [first, inside])
  · simp [h.order, next]
  · intro ended
    have busy := hasEnded_of_held (c := { c with
      queue, line, workers := c.workers.set worker (.busy job) }) (held_set idle _) rfl
    exact absurd (busy.symm.trans ended) Bool.false_ne_true
  · intro _
    simpa using h.kept alive
  · have running : (c.workers.set worker (.busy job)).filterMap Worker.job? |>.Perm
        (c.running ++ [job]) :=
      (running_set idle (.busy job)).trans List.perm_append_comm
    have moved := h.fates.append_right [job]
    rw [List.append_assoc] at moved
    simpa [Crew.running] using moved.trans (running.symm.append_left _)
  · intro absent
    simpa using h.unhurt (ended_set idle rfl absent)
  · intro one
    rw [List.length_set] at one
    obtain ⟨alone, rfl⟩ := eq_singleton one idle
    have single := h.single one
    have unhurt := h.unhurt (by simp [alone])
    simp only [Crew.running, alone, unhurt] at single
    simp [Crew.running, alone, unhurt, single, Worker.job?]

theorem finish (h : Kept workers capacity events c)
    (busy : c.workers[worker]? = some (.busy job)) :
    Kept workers capacity (events ++ [⟨.finished, job⟩])
      { c with workers := c.workers.set worker .idle } := by
  have alive : c.hasEnded = false := hasEnded_of_held busy rfl
  refine ⟨?_, h.capacity, h.line, ?_, h.room, ?_, ?_, ?_, ?_, ?_, ?_⟩
  · rw [List.length_set]
    exact h.size
  · intro other inside
    have apart : worker ≠ other := by
      rintro rfl
      rw [h.idle worker inside] at busy
      cases busy
    rw [List.getElem?_set_ne apart]
    exact h.idle other inside
  · simpa using h.order
  · intro ended
    have idle := hasEnded_of_held (c := { c with workers := c.workers.set worker .idle })
      (held_set busy _) rfl
    exact absurd (idle.symm.trans ended) Bool.false_ne_true
  · intro _
    simpa using h.kept alive
  · have running : (job :: (c.workers.set worker .idle).filterMap Worker.job?).Perm c.running :=
      running_set busy .idle
    have moved := h.fates.trans (running.symm.append_left _)
    have through : (jobs .finished events ++ jobs .lost events ++ [job]).Perm
        (jobs .finished events ++ [job] ++ jobs .lost events) := by
      rw [List.append_assoc, List.append_assoc]
      exact List.perm_append_comm.append_left _
    rw [List.append_cons] at moved
    simpa [Crew.running] using moved.trans (through.append_right _)
  · intro absent
    simpa using h.unhurt (ended_set busy rfl absent)
  · intro one
    rw [List.length_set] at one
    obtain ⟨alone, rfl⟩ := eq_singleton one busy
    have single := h.single one
    have unhurt := h.unhurt (by simp [alone])
    simp only [Crew.running, alone, unhurt] at single
    simp [Crew.running, alone, unhurt, single, Worker.job?]

/-- What a worker ran before it retired is what nobody runs any more. -/
theorem running_retire (c : Crew α) (worker : Nat) :
    ((c.workers[worker]?.bind Worker.job?).toList ++ (c.retire worker).running).Perm c.running := by
  cases held : c.workers[worker]? with
  | none =>
    have long := List.getElem?_eq_none_iff.1 held
    simp [Crew.running, retire, List.set_eq_of_length_le long]
  | some state => exact running_set held .ended

theorem retire (h : Kept workers capacity events c) (worker : Nat) :
    Kept workers capacity (events ++ c.losses worker) (c.retire worker) := by
  let gone := (c.workers[worker]?.bind Worker.job?).toList
  have lost : jobs .lost (c.losses worker) = gone := by
    unfold losses
    split <;> simp [gone]
  have discarded : jobs .discarded (c.losses worker) =
      if (c.retire worker).hasEnded then c.queue else [] := by
    unfold losses
    split <;> simp
  -- A retired worker may lose jobs, and none gets anywhere by that.
  have none (stage : Stage) (other : stage ≠ .lost ∧ stage ≠ .discarded) :
      jobs stage (events ++ c.losses worker) = jobs stage events := by
    rw [jobs_append, jobs_losses other, List.append_nil]
  have accepted := none .accepted (by decide)
  have started := none .started (by decide)
  have finished := none .finished (by decide)
  have queue : (c.retire worker).queue = if (c.retire worker).hasEnded then [] else c.queue := rfl
  refine ⟨?_, h.capacity, h.line.filter _, ?_, ?_, ?_, ?_, ?_, ?_, ?_, ?_⟩
  · unfold Crew.retire
    rw [List.length_set]
    exact h.size
  · intro other inside
    obtain ⟨inside, apart⟩ := List.mem_filter.1 inside
    have apart : worker ≠ other := fun same => by simp [same] at apart
    unfold Crew.retire
    rw [List.getElem?_set_ne apart]
    exact h.idle other inside
  · rw [queue]
    split
    · exact Nat.zero_le _
    · exact h.room
  · -- The queue goes once: if the crew had ended before, it was empty already.
    rw [accepted, started, queue, jobs_append, discarded, h.order]
    cases before : c.hasEnded with
    | true => simp [h.emptied before]
    | false => split <;> simp [h.kept before]
  · intro ended
    rw [queue, if_pos ended]
  · intro alive
    have before : c.hasEnded = false := by
      by_contra ended
      rw [hasEnded_retire (Bool.not_eq_false _ ▸ ended)] at alive
      cases alive
    rw [jobs_append, discarded, alive, h.kept before]
    rfl
  · rw [started, finished, jobs_append, lost]
    have moved := h.fates.trans ((running_retire c worker).symm.append_left _)
    simpa [gone] using moved
  · -- Nobody retired if no worker has ended, so there was no such worker.
    intro absent
    have out : c.workers[worker]? = Option.none := by
      by_contra found
      obtain ⟨state, held⟩ := Option.ne_none_iff_exists'.1 found
      exact absent (List.mem_of_getElem? (held_set held .ended))
    have long := List.getElem?_eq_none_iff.1 out
    have same : (c.retire worker).workers = c.workers := List.set_eq_of_length_le long
    rw [same] at absent
    rw [jobs_append, lost, h.unhurt absent]
    simp [gone, out]
  · intro one
    have one : c.workers.length = 1 := by simpa [Crew.retire] using one
    rw [started, finished, jobs_append, lost, h.single one]
    obtain ⟨only, alone⟩ := List.length_eq_one_iff.1 one
    cases worker with
    | zero =>
      cases only <;>
        simp [gone, Crew.running, Crew.retire, alone, Worker.job?, List.filterMap_cons]
    | succ worker => simp [gone, Crew.running, Crew.retire, alone]

theorem losses_of_leave (h : Kept workers capacity events c) {line : List Nat}
    (first : c.line = worker :: line) (empty : c.queue = []) : c.losses worker = [] := by
  have idle : c.workers[worker]? = some .idle := h.idle worker (by simp [first])
  simp [losses, idle, Worker.job?, empty]

theorem work (h : Kept workers capacity events c) (work : Work c more d) :
    Kept workers capacity (events ++ more) d := by
  cases work with
  | turnAway held ended => exact h.aside (by simp [Quiet]) _ _
  | @letIn i job held alive room =>
    have out : Kept workers capacity (events ++ []) (c.giveUp i) := h.aside (by simp [Quiet]) _ _
    simpa using out.push job alive room
  | stand idle absent => simpa using h.stand idle absent
  | take first next => exact h.take first next
  | finish busy => exact h.finish busy
  | @leave worker line first empty nobody closed =>
    have left := h.retire worker
    rwa [h.losses_of_leave first empty] at left

theorem step (h : Kept workers capacity events c) (step : Step c more d) :
    Kept workers capacity (events ++ more) d := by
  cases step with
  | none => simpa using h
  | work work => exact h.work work
  | refuse job => exact h.aside (by simp [Quiet]) _ _
  | accept job alive accepting room =>
    have told : Kept workers capacity (events ++ [⟨.submitted, job⟩]) c :=
      h.aside (by simp [Quiet]) _ _
    simpa using told.push job alive room
  | enter job accepting => exact h.aside (by simp [Quiet]) _ _
  | giveUp held => exact h.aside (by simp [Quiet]) _ _
  | close => exact h.aside (by simp [Quiet]) _ _

theorem perform (h : Kept workers capacity events c) (action : Action α) :
    Kept workers capacity (events ++ (c.perform action).1) (c.perform action).2 := by
  exact perform_cases (fun more d => Kept workers capacity (events ++ more) d) h.step h.retire action

theorem running_le (h : Kept workers capacity events c) : c.running.length ≤ max 1 workers := by
  rw [← h.size]
  exact List.length_filterMap_le _ _

theorem not_started (h : Kept workers capacity events c) (absent : job ∉ jobs .accepted events) :
    job ∉ jobs .started events := by
  intro begun
  rw [h.order, List.append_assoc] at absent
  exact absent (List.mem_append_left _ begun)

/-- A single worker that takes a job has finished all that were accepted before. -/
theorem take_alone (h : Kept workers capacity events c) (few : workers ≤ 1)
    (taken : c.take? worker = some (job, d)) :
    jobs .started events = jobs .finished events ∧
      ∃ later, jobs .accepted events = jobs .finished events ++ job :: later := by
  obtain ⟨line, queue, first, next, -⟩ := take?_eq_some taken
  have idle := h.idle worker (by simp [first])
  have one : c.workers.length = 1 := by
    rw [h.size]
    omega
  obtain ⟨alone, -⟩ := eq_singleton one idle
  have same : jobs .started events = jobs .finished events := by
    have single := h.single one
    have unhurt := h.unhurt (by simp [alone])
    simpa [running, alone, unhurt, Worker.job?, List.filterMap_cons] using single
  refine ⟨same, queue ++ jobs .discarded events, ?_⟩
  rw [h.order, same, next, List.append_assoc, List.cons_append]

end Kept

/-- Every job that was submitted was accepted, refused or withdrawn, or its submitter waits. -/
def Answered (events : List (Event α)) (c : Crew α) : Prop :=
  (jobs .submitted events).Perm
    (jobs .accepted events ++ jobs .refused events ++ jobs .withdrawn events ++ c.waiting)

namespace Answered

theorem iff_count [DecidableEq α] : Answered events c ↔ ∀ job,
    (jobs .submitted events).count job =
      (jobs .accepted events).count job + (jobs .refused events).count job +
        (jobs .withdrawn events).count job + c.waiting.count job := by
  simp only [Answered, List.perm_iff_count, List.count_append]

theorem giveUp_perm (held : c.waiting[i]? = some job) :
    (job :: (c.giveUp i).waiting).Perm c.waiting := by
  obtain ⟨short, rfl⟩ := List.getElem?_eq_some_iff.1 held
  exact List.getElem_cons_eraseIdx_perm short

theorem step (h : Answered events c) (step : Step c more d) : Answered (events ++ more) d := by
  classical
  rw [iff_count] at h ⊢
  intro other
  have balance := h other
  cases step with
  | none => simpa using balance
  | work work =>
    cases work with
    | turnAway held =>
      have left := (giveUp_perm held).count_eq other
      simp [List.count_cons] at left ⊢
      omega
    | letIn held =>
      have left := (giveUp_perm held).count_eq other
      simp [Crew.push, List.count_cons] at left ⊢
      omega
    | stand => simpa using balance
    | take => simpa using balance
    | finish => simpa using balance
    | leave => simpa [retire] using balance
  | refuse =>
    simp [List.count_cons]
    omega
  | accept =>
    simp [Crew.push, List.count_cons]
    omega
  | enter =>
    simp [List.count_cons]
    omega
  | giveUp held =>
    have left := (giveUp_perm held).count_eq other
    simp [List.count_cons] at left ⊢
    omega
  | close => simpa [close] using balance

theorem perform (h : Answered events c) (action : Action α) :
    Answered (events ++ (c.perform action).1) (c.perform action).2 := by
  refine perform_cases (fun more d => Answered (events ++ more) d) h.step ?_ action
  intro worker
  have none (stage : Stage) (other : stage ≠ .lost ∧ stage ≠ .discarded) :
      jobs stage (events ++ c.losses worker) = jobs stage events := by
    rw [jobs_append, jobs_losses other, List.append_nil]
  unfold Answered
  rw [none .submitted (by decide), none .accepted (by decide), none .refused (by decide),
    none .withdrawn (by decide)]
  exact h

theorem not_accepted (h : Answered events c) (distinct : (jobs .submitted events).Nodup)
    (refused : job ∈ jobs .refused events) : job ∉ jobs .accepted events := by
  intro accepted
  have apart := h.nodup_iff.1 distinct
  rw [List.append_assoc, List.append_assoc] at apart
  exact (List.nodup_append.1 apart).2.2 job accepted job (List.mem_append_left _ refused) rfl

end Answered

/-- The jobs that a crew still has to do or to answer for. -/
def held (c : Crew α) : List α :=
  c.queue ++ c.waiting ++ c.running

theorem mem_held : job ∈ c.held ↔ job ∈ c.queue ∨ job ∈ c.waiting ∨ .busy job ∈ c.workers := by
  have busy : job ∈ c.running ↔ .busy job ∈ c.workers := by
    unfold running
    rw [List.mem_filterMap]
    constructor
    · rintro ⟨state, inside, runs⟩
      cases state <;> cases runs
      exact inside
    · exact fun inside => ⟨_, inside, rfl⟩
  simp [held, busy]

/-- No job comes from nowhere. -/
theorem Step.held_subset (step : Step c more d) : d.held ⊆ c.held ++ jobs .submitted more := by
  intro job found
  rw [mem_held] at found
  rw [List.mem_append, mem_held]
  cases step with
  | none | refuse | close => exact .inl found
  | work work =>
    left
    cases work with
    | turnAway => exact found.imp_right (.imp_left List.mem_of_mem_eraseIdx)
    | letIn held =>
      rcases found with queued | waits | runs
      · rcases List.mem_append.1 queued with old | new
        · exact .inl old
        · rw [List.mem_singleton.1 new]
          exact .inr (.inl (List.mem_of_getElem? held))
      · exact .inr (.inl (List.mem_of_mem_eraseIdx waits))
      · exact .inr (.inr runs)
    | stand => exact found
    | take first next =>
      rcases found with queued | waits | runs
      · exact .inl (next ▸ List.mem_cons_of_mem _ queued)
      · exact .inr (.inl waits)
      · rcases List.mem_or_eq_of_mem_set runs with old | new
        · exact .inr (.inr old)
        · cases new
          exact .inl (next ▸ List.mem_cons_self)
    | finish busy =>
      refine found.imp_right (.imp_right fun runs => ?_)
      rcases List.mem_or_eq_of_mem_set runs with old | new
      · exact old
      · cases new
    | leave first empty =>
      rcases found with queued | waits | runs
      · simp [retire, empty] at queued
      · exact .inr (.inl waits)
      · rcases List.mem_or_eq_of_mem_set runs with old | new
        · exact .inr (.inr old)
        · cases new
  | accept job =>
    rcases found with queued | rest
    · rcases List.mem_append.1 queued with old | new
      · exact .inl (.inl old)
      · exact .inr new
    · exact .inl (.inr rest)
  | enter job =>
    rcases found with queued | waits | runs
    · exact .inl (.inl queued)
    · rcases List.mem_append.1 waits with old | new
      · exact .inl (.inr (.inl old))
      · exact .inr new
    · exact .inl (.inr (.inr runs))
  | giveUp => exact .inl (found.imp_right (.imp_left List.mem_of_mem_eraseIdx))

theorem held_run {actions : List (Action α)} (fair : ∀ action ∈ actions, action.spares = true) :
    (c.run actions).2.held ⊆ c.held ++ jobs .submitted (c.run actions).1 := by
  refine run_induction (fun events d => d.held ⊆ c.held ++ jobs .submitted events)
    (fun action => action.spares = true) ?_ fair [] (List.subset_append_left _ _)
  intro events d action before spares job found
  have step := (step_of_spares (c := d) spares).held_subset found
  rw [jobs_append, ← List.append_assoc]
  rcases List.mem_append.1 step with old | new
  · exact List.mem_append_left _ (before old)
  · exact List.mem_append_right _ new

end Crew

end BlockSync
