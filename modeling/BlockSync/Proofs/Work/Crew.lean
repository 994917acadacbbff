import BlockSync.Work.Crew

/-! What a crew can do. Its workers, its submitters and its owner act in any order; each action is
told as what happens to a job. Any of them is one of a few steps, or a worker retires. -/
namespace BlockSync.Crew

/-- What can happen to a job. -/
inductive Stage where
  | submitted
  | accepted
  | refused
  | withdrawn
  | started
  | finished
  /-- Lost with the worker that did it. -/
  | lost
  /-- Lost from the queue with the last worker. -/
  | discarded
  deriving DecidableEq, Repr

structure Event (α : Type) where
  stage : Stage
  job : α
  deriving DecidableEq, Repr

/-- What a worker, a submitter or the owner of the crew does next. -/
inductive Action (α : Type) where
  | trySubmit (job : α)
  | enter (job : α)
  | letIn (submitter : Nat)
  | giveUp (submitter : Nat)
  | standInLine (worker : Nat)
  | take (worker : Nat)
  | finish (worker : Nat)
  | leave (worker : Nat)
  | close
  /-- The job of a worker fails, or the worker is made to stop. -/
  | retire (worker : Nat)
  deriving DecidableEq, Repr

variable {α : Type}

def verdict (job : α) : Except SubmitError Unit → Event α
  | .ok _ => ⟨.accepted, job⟩
  | .error _ => ⟨.refused, job⟩

/-- What is lost when a worker retires: its job and, if it is the last, the queue. -/
def losses (c : Crew α) (worker : Nat) : List (Event α) :=
  (c.workers[worker]?.bind Worker.job?).toList.map (⟨.lost, ·⟩) ++
    if (c.retire worker).hasEnded then c.queue.map (⟨.discarded, ·⟩) else []

/-- An action that is not possible does nothing. -/
def perform (c : Crew α) : Action α → List (Event α) × Crew α
  | .trySubmit job =>
    let (answer, d) := c.trySubmit job
    ([⟨.submitted, job⟩, verdict job answer], d)
  | .enter job =>
    match c.enter job with
    | .ok d => ([⟨.submitted, job⟩], d)
    | .error _ => ([⟨.submitted, job⟩, ⟨.refused, job⟩], c)
  | .letIn submitter =>
    match c.letIn? submitter with
    | some (answer, d) => (c.waiting[submitter]?.toList.map (verdict · answer), d)
    | none => ([], c)
  | .giveUp submitter => (c.waiting[submitter]?.toList.map (⟨.withdrawn, ·⟩), c.giveUp submitter)
  | .standInLine worker => ([], c.standInLine worker)
  | .take worker =>
    match c.take? worker with
    | some (job, d) => ([⟨.started, job⟩], d)
    | none => ([], c)
  | .finish worker =>
    match c.finish? worker with
    | some (job, d) => ([⟨.finished, job⟩], d)
    | none => ([], c)
  | .leave worker => ([], (c.leave? worker).getD c)
  | .close => ([], c.close)
  | .retire worker => (c.losses worker, c.retire worker)

def run (c : Crew α) : List (Action α) → List (Event α) × Crew α
  | [] => ([], c)
  | action :: rest =>
    let (events, d) := c.perform action
    let (more, last) := d.run rest
    (events ++ more, last)

/-- The jobs that got to a stage, in the order in which they did. -/
def jobs (stage : Stage) (events : List (Event α)) : List α :=
  (events.filter (·.stage = stage)).map Event.job

/-- No worker is made to stop, and no job fails. -/
def Action.spares : Action α → Bool
  | .retire _ => false
  | _ => true

/-- What workers and those who wait for room do by themselves. -/
def Action.isWork : Action α → Bool
  | .letIn _ => true
  | .standInLine _ => true
  | .take _ => true
  | .finish _ => true
  | .leave _ => true
  | _ => false

variable {c d : Crew α} {events more : List (Event α)} {stage : Stage} {job : α} {i worker : Nat}

@[simp] theorem jobs_nil : jobs stage ([] : List (Event α)) = [] := rfl

@[simp] theorem jobs_append :
    jobs stage (events ++ more) = jobs stage events ++ jobs stage more := by
  simp [jobs]

@[simp] theorem jobs_cons (e : Event α) :
    jobs stage (e :: events) = (if e.stage = stage then [e.job] else []) ++ jobs stage events := by
  unfold jobs
  split <;> simp_all

@[simp] theorem jobs_map (other : Stage) (list : List α) :
    jobs stage (list.map (⟨other, ·⟩)) = if other = stage then list else [] := by
  induction list with
  | nil => simp
  | cons job rest ih =>
    rw [List.map_cons, jobs_cons, ih]
    split <;> rfl

/-- What workers and waiting submitters get done, and what is told of it. -/
inductive Work : Crew α → List (Event α) → Crew α → Prop
  | turnAway {c : Crew α} {i : Nat} {job : α} (held : c.waiting[i]? = some job)
      (ended : c.hasEnded = true) : Work c [⟨.refused, job⟩] (c.giveUp i)
  | letIn {c : Crew α} {i : Nat} {job : α} (held : c.waiting[i]? = some job)
      (alive : c.hasEnded = false) (room : c.queue.length < c.capacity) :
      Work c [⟨.accepted, job⟩] ((c.giveUp i).push job)
  | stand {c : Crew α} {worker : Nat} (idle : c.workers[worker]? = some .idle)
      (absent : worker ∉ c.line) : Work c [] { c with line := c.line ++ [worker] }
  | take {c : Crew α} {worker : Nat} {line : List Nat} {job : α} {queue : List α}
      (first : c.line = worker :: line) (next : c.queue = job :: queue) :
      Work c [⟨.started, job⟩]
        { c with queue, line, workers := c.workers.set worker (.busy job) }
  | finish {c : Crew α} {worker : Nat} {job : α} (busy : c.workers[worker]? = some (.busy job)) :
      Work c [⟨.finished, job⟩] { c with workers := c.workers.set worker .idle }
  | leave {c : Crew α} {worker : Nat} {line : List Nat} (first : c.line = worker :: line)
      (empty : c.queue = []) (nobody : c.waiting = []) (closed : c.accepting = false) :
      Work c [] (c.retire worker)

/-- All that can happen while no worker is made to stop and no job fails. -/
inductive Step : Crew α → List (Event α) → Crew α → Prop
  | none (c : Crew α) : Step c [] c
  | work {c d : Crew α} {events : List (Event α)} (work : Work c events d) : Step c events d
  | refuse (c : Crew α) (job : α) : Step c [⟨.submitted, job⟩, ⟨.refused, job⟩] c
  | accept {c : Crew α} (job : α) (alive : c.hasEnded = false)
      (accepting : c.accepting = true) (room : c.queue.length < c.capacity) :
      Step c [⟨.submitted, job⟩, ⟨.accepted, job⟩] (c.push job)
  | enter {c : Crew α} (job : α) (accepting : c.accepting = true) :
      Step c [⟨.submitted, job⟩] { c with waiting := c.waiting ++ [job] }
  | giveUp {c : Crew α} {i : Nat} {job : α} (held : c.waiting[i]? = some job) :
      Step c [⟨.withdrawn, job⟩] (c.giveUp i)
  | close (c : Crew α) : Step c [] c.close

theorem take?_eq_some {job : α} (taken : c.take? worker = some (job, d)) :
    ∃ line queue, c.line = worker :: line ∧ c.queue = job :: queue ∧
      d = { c with queue, line, workers := c.workers.set worker (.busy job) } := by
  unfold take? at taken
  split at taken
  · rename_i first
    obtain ⟨line, first⟩ := List.head?_eq_some_iff.1 first
    split at taken
    · cases taken
    · rename_i queue next
      cases taken
      exact ⟨line, queue, first, next, by rw [first]; rfl⟩
  · cases taken

theorem finish?_eq_some (finished : c.finish? worker = some (job, d)) :
    c.workers[worker]? = some (.busy job) ∧ d = { c with workers := c.workers.set worker .idle } := by
  unfold finish? at finished
  split at finished
  · rename_i busy
    cases finished
    exact ⟨busy, rfl⟩
  · cases finished

theorem leave?_eq_some (left : c.leave? worker = some d) :
    (∃ line, c.line = worker :: line) ∧ c.queue = [] ∧ c.waiting = [] ∧ c.accepting = false ∧
      d = c.retire worker := by
  unfold leave? at left
  split at left
  · rename_i last
    obtain ⟨first, empty, nobody, closed⟩ := last
    cases left
    exact ⟨List.head?_eq_some_iff.1 first, List.isEmpty_iff.1 empty, List.isEmpty_iff.1 nobody,
      Bool.eq_false_iff.2 closed, rfl⟩
  · cases left

theorem letIn?_eq_some {answer : Except SubmitError Unit}
    (answered : c.letIn? i = some (answer, d)) :
    ∃ job, c.waiting[i]? = some job ∧
      (c.hasEnded = true ∧ answer = .error .shutDown ∧ d = c.giveUp i ∨
        c.hasEnded = false ∧ c.queue.length < c.capacity ∧ answer = .ok () ∧
          d = (c.giveUp i).push job) := by
  unfold letIn? at answered
  split at answered
  · cases answered
  · rename_i job held
    refine ⟨job, held, ?_⟩
    split at answered
    · rename_i ended
      cases answered
      exact .inl ⟨ended, rfl, rfl⟩
    · rename_i alive
      split at answered
      · rename_i room
        cases answered
        exact .inr ⟨Bool.eq_false_iff.2 alive, by simpa [hasRoom] using room, rfl, rfl⟩
      · cases answered

theorem giveUp_of_none (absent : c.waiting[i]? = none) : c.giveUp i = c := by
  have long := List.getElem?_eq_none_iff.1 absent
  simp [giveUp, List.eraseIdx_of_length_le long]

theorem work_of_isWork {action : Action α} (isWork : action.isWork = true) :
    c.perform action = ([], c) ∨ Work c (c.perform action).1 (c.perform action).2 := by
  cases action with
  | letIn submitter =>
    simp only [perform]
    cases result : c.letIn? submitter with
    | none => exact .inl rfl
    | some pair =>
      obtain ⟨answer, d⟩ := pair
      obtain ⟨job, held, ⟨ended, rfl, rfl⟩ | ⟨alive, room, rfl, rfl⟩⟩ := letIn?_eq_some result
      · rw [held]
        exact .inr (.turnAway held ended)
      · rw [held]
        exact .inr (.letIn held alive room)
  | standInLine worker =>
    simp only [perform, standInLine]
    split
    · rename_i idle
      split
      · exact .inl rfl
      · rename_i absent
        exact .inr (.stand idle (by simpa using absent))
    · exact .inl rfl
  | take worker =>
    simp only [perform]
    cases result : c.take? worker with
    | none => exact .inl rfl
    | some pair =>
      obtain ⟨line, queue, first, next, rest⟩ := take?_eq_some result
      rw [rest]
      exact .inr (.take first next)
  | finish worker =>
    simp only [perform]
    cases result : c.finish? worker with
    | none => exact .inl rfl
    | some pair =>
      obtain ⟨busy, rest⟩ := finish?_eq_some result
      rw [rest]
      exact .inr (.finish busy)
  | leave worker =>
    simp only [perform]
    cases result : c.leave? worker with
    | none => exact .inl rfl
    | some d =>
      obtain ⟨⟨line, first⟩, empty, nobody, closed, rest⟩ := leave?_eq_some result
      rw [rest]
      exact .inr (.leave first empty nobody closed)
  | trySubmit | enter | giveUp | close | retire => cases isWork

theorem step_of_spares {action : Action α} (spares : action.spares = true) :
    Step c (c.perform action).1 (c.perform action).2 := by
  by_cases isWork : action.isWork = true
  · rcases work_of_isWork (c := c) isWork with same | work
    · rw [same]
      exact .none c
    · exact .work work
  · cases action with
    | trySubmit job =>
      simp only [perform, trySubmit]
      split
      · exact .refuse c job
      · rename_i opened
        rw [Bool.not_eq_true, isClosed, Bool.or_eq_false_iff, Bool.not_eq_false'] at opened
        split
        · rename_i room
          exact .accept job opened.2 opened.1 (by simpa [hasRoom] using room)
        · exact .refuse c job
    | enter job =>
      by_cases accepting : c.accepting = true
      · rw [perform, Crew.enter, if_pos accepting]
        exact .enter job accepting
      · rw [perform, Crew.enter, if_neg accepting]
        exact .refuse c job
    | giveUp submitter =>
      simp only [perform]
      cases held : c.waiting[submitter]? with
      | none =>
        rw [giveUp_of_none held]
        exact .none c
      | some job => exact .giveUp held
    | close => exact .close c
    | retire => cases spares
    | letIn | standInLine | take | finish | leave => exact absurd rfl isWork

/-- Whatever is done is a step, or a worker retires. -/
theorem perform_cases (holds : List (Event α) → Crew α → Prop)
    (step : ∀ {more d}, Step c more d → holds more d)
    (retire : ∀ worker, holds (c.losses worker) (c.retire worker)) (action : Action α) :
    holds (c.perform action).1 (c.perform action).2 := by
  cases spares : action.spares with
  | true => exact step (step_of_spares spares)
  | false =>
    cases action with
    | retire worker => exact retire worker
    | trySubmit | enter | letIn | giveUp | standInLine | take | finish | leave | close =>
      cases spares

theorem jobs_losses (other : stage ≠ .lost ∧ stage ≠ .discarded) :
    jobs stage (c.losses worker) = [] := by
  unfold losses
  split <;> simp [other.1.symm, other.2.symm]

/-- What every action keeps is true after a run. -/
theorem run_induction (holds : List (Event α) → Crew α → Prop) (fair : Action α → Prop)
    (step : ∀ {events c action}, holds events c → fair action →
      holds (events ++ (c.perform action).1) (c.perform action).2)
    {actions : List (Action α)} (all : ∀ action ∈ actions, fair action)
    (events : List (Event α)) (start : holds events c) :
    holds (events ++ (c.run actions).1) (c.run actions).2 := by
  -- What was told before the first action grows with each, so it stays general.
  induction actions generalizing events c with
  | nil => simpa [run] using start
  | cons action rest ih =>
    have next := step start (all action (by simp))
    have last := ih (fun other inside => all other (by simp [inside])) _ next
    simpa [run] using last

theorem run_append (c : Crew α) (actions others : List (Action α)) :
    c.run (actions ++ others) =
      ((c.run actions).1 ++ ((c.run actions).2.run others).1, ((c.run actions).2.run others).2) := by
  induction actions generalizing c with
  | nil => rfl
  | cons action rest ih => simp [run, ih]

theorem Step.closed (step : Step c more d) (closed : c.accepting = false) :
    d.accepting = false := by
  cases step with
  | none | refuse | giveUp => exact closed
  | work work => cases work <;> exact closed
  | accept job alive accepting => exact absurd (closed.symm.trans accepting) Bool.false_ne_true
  | enter job accepting => exact absurd (closed.symm.trans accepting) Bool.false_ne_true
  | close => rfl

theorem closed_perform (closed : c.accepting = false) (action : Action α) :
    (c.perform action).2.accepting = false := by
  exact perform_cases (fun _ d => d.accepting = false) (fun step => step.closed closed)
    (fun _ => closed) action

theorem closed_run {actions : List (Action α)} (shut : Action.close ∈ actions) :
    (c.run actions).2.accepting = false := by
  induction actions generalizing c with
  | nil => cases shut
  | cons action rest ih =>
    rcases List.mem_cons.1 shut with rfl | later
    · exact run_induction (fun _ d => d.accepting = false) (fun _ => True)
        (fun closed _ => closed_perform closed _) (fun _ _ => trivial) [] (c := c.close) rfl
    · exact ih later

end BlockSync.Crew
