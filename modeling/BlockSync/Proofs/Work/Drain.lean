import BlockSync.Proofs.Work.Accounts

/-! A crew that accepts no more jobs. Workers leave only when nothing is left to do, what there is
to do grows less with all that is done, and while a worker is left something can be done. So such
a crew comes to its end, and by then all jobs that it accepted are finished. -/
namespace BlockSync.Crew

variable {α : Type} {c d : Crew α} {events more : List (Event α)} {worker : Nat}

/-- No job was lost on its way to its end. -/
structure Unhurt (events : List (Event α)) : Prop where
  lost : jobs .lost events = []
  discarded : jobs .discarded events = []

theorem Step.unhurt (step : Step c more d) : Unhurt more := by
  cases step with
  | work work => cases work <;> exact ⟨rfl, rfl⟩
  | none | refuse | accept | enter | giveUp | close => exact ⟨rfl, rfl⟩

theorem unhurt_run {actions : List (Action α)} (fair : ∀ action ∈ actions, action.spares = true) :
    Unhurt (c.run actions).1 := by
  refine run_induction (fun events _ => Unhurt events) (fun action => action.spares = true) ?_ fair
    [] ⟨rfl, rfl⟩
  intro events c action h spares
  have more := (step_of_spares (c := c) spares).unhurt
  exact ⟨by rw [jobs_append, h.lost, more.lost]; rfl,
    by rw [jobs_append, h.discarded, more.discarded]; rfl⟩

/-- A worker has its job to finish, to stand in line and to leave. -/
def load (workers : List (Worker α)) : Nat :=
  (workers.filterMap Worker.job?).length + 2 * workers.countP (!·.isEnded)

/-- How much the workers and waiting submitters can still do without any more submissions. -/
def remaining (c : Crew α) : Nat :=
  4 * c.waiting.length + 3 * c.queue.length + load c.workers + (c.workers.length - c.line.length)

theorem load_cons (state : Worker α) (workers : List (Worker α)) :
    load (state :: workers) = load [state] + load workers := by
  cases state <;> simp [load, Worker.job?, Worker.isEnded, List.filterMap_cons] <;> omega

theorem load_set {state : Worker α} (held : c.workers[worker]? = some state) (after : Worker α) :
    load [state] + load (c.workers.set worker after) = load [after] + load c.workers := by
  have swapped := set_perm held after
  have same : load (state :: c.workers.set worker after) = load (after :: c.workers) := by
    unfold load
    rw [(swapped.filterMap Worker.job?).length_eq, swapped.countP_eq]
  exact (load_cons _ _).symm.trans (same.trans (load_cons _ _))

theorem Kept.line_le {workers capacity : Nat} (h : Kept workers capacity events c) :
    c.line.length ≤ c.workers.length := by
  have inside : c.line ⊆ List.range c.workers.length := fun worker held => by
    obtain ⟨short, -⟩ := List.getElem?_eq_some_iff.1 (h.idle worker held)
    exact List.mem_range.2 short
  simpa using (List.subperm_of_subset h.line inside).length_le

theorem Work.remaining_lt {workers capacity : Nat} (work : Work c more d)
    (h : Kept workers capacity events c) : d.remaining < c.remaining := by
  have after := (h.work work).line_le
  cases work with
  | @turnAway i job held ended =>
    have left := (Answered.giveUp_perm held).length_eq
    simp [remaining, Crew.giveUp] at left ⊢
    omega
  | letIn held alive room =>
    have left := (Answered.giveUp_perm held).length_eq
    simp [remaining, Crew.giveUp, Crew.push] at left ⊢
    omega
  | stand idle absent =>
    simp [remaining] at after ⊢
    omega
  | @take worker line job queue first next =>
    have idle : c.workers[worker]? = some .idle := h.idle worker (by simp [first])
    have load : 2 + load (c.workers.set worker (.busy job)) = 3 + load c.workers :=
      load_set idle (.busy job)
    simp [remaining, first, next]
    omega
  | finish busy =>
    have load : 3 + load (c.workers.set _ .idle) = 2 + load c.workers := load_set busy .idle
    simp [remaining]
    omega
  | @leave worker line first empty nobody closed =>
    have idle : c.workers[worker]? = some .idle := h.idle worker (by simp [first])
    have load : 2 + load (c.workers.set worker .ended) = 0 + load c.workers := load_set idle .ended
    have distinct := h.line
    rw [first, List.nodup_cons] at distinct
    have rest : line.filter (fun other => !decide (other = worker)) = line := by
      rw [List.filter_eq_self]
      intro other inside
      simpa using fun same : other = worker => distinct.1 (same ▸ inside)
    simp [remaining, retire, first, empty, rest]
    omega

/-- A crew that accepts no more and is not done has something to do. -/
theorem exists_work {workers capacity : Nat} (h : Kept workers capacity events c)
    (closed : c.accepting = false) (alive : c.hasEnded = false) :
    ∃ action, action.isWork = true ∧ Work c (c.perform action).1 (c.perform action).2 := by
  have works (action : Action α) (isWork : action.isWork = true)
      (moves : c.perform action ≠ ([], c)) :
      ∃ action, action.isWork = true ∧ Work c (c.perform action).1 (c.perform action).2 :=
    ⟨action, isWork, (work_of_isWork isWork).resolve_left moves⟩
  -- Some worker has not left. If it is idle, whoever is first in line has a job to take, a
  -- submitter to wait for who can be let in, or reason to leave.
  obtain ⟨state, inside, unfinished⟩ := List.all_eq_false.1 alive
  obtain ⟨worker, held⟩ := List.mem_iff_getElem?.1 inside
  cases state with
  | ended => exact absurd rfl unfinished
  | busy job => exact works (.finish worker) rfl (by simp [perform, finish?, held])
  | idle =>
    cases line : c.line with
    | nil =>
      refine works (.standInLine worker) rfl fun same => ?_
      have stays : (c.standInLine worker).line = [] := by
        rw [show c.standInLine worker = c from congrArg Prod.snd same, line]
      simp [standInLine, held, line] at stays
    | cons first rest =>
      cases queue : c.queue with
      | cons job later => exact works (.take first) rfl (by simp [perform, take?, line, queue])
      | nil =>
        cases waiting : c.waiting with
        | cons job others =>
          have room : 0 < c.capacity := by
            have capacity := h.capacity
            omega
          exact works (.letIn 0) rfl
            (by simp [perform, letIn?, waiting, alive, hasRoom, queue, room])
        | nil =>
          refine works (.leave first) rfl fun same => ?_
          have idle := h.idle first (by simp [line])
          have left : c.leave? first = some (c.retire first) := by
            simp [leave?, line, queue, waiting, closed]
          have stays : c.retire first = c := by
            have same := congrArg Prod.snd same
            rwa [perform, left] at same
          have gone : (c.retire first).workers[first]? = some .ended := held_set idle .ended
          rw [stays, idle] at gone
          cases gone

/-- Whatever is done leaves less to do, and something can be done while a worker is left. -/
structure Dwindles (c : Crew α) : Prop where
  less : ∀ action : Action α, action.isWork = true →
    (c.perform action).2 = c ∨ (c.perform action).2.remaining < c.remaining
  goesOn : (∀ action : Action α, action.isWork = true → (c.perform action).2 = c) →
    c.hasEnded = true

theorem Kept.dwindles {workers capacity : Nat} (h : Kept workers capacity events c)
    (closed : c.accepting = false) : Dwindles c where
  less action isWork := by
    rcases work_of_isWork (c := c) isWork with same | work
    · exact .inl (congrArg Prod.snd same)
    · exact .inr (work.remaining_lt h)
  goesOn stuck := by
    by_contra alive
    obtain ⟨action, isWork, work⟩ := exists_work h closed (Bool.eq_false_iff.2 alive)
    have less := work.remaining_lt h
    rw [stuck action isWork] at less
    exact Nat.lt_irrefl _ less

/-- When the workers have left and nothing was lost, all that was accepted is finished. -/
theorem Kept.finished {workers capacity : Nat} (h : Kept workers capacity events c)
    (unhurt : Unhurt events) (ended : c.hasEnded = true) :
    (jobs .accepted events).Perm (jobs .finished events) := by
  have nobody : c.running = [] := by
    unfold running
    rw [List.filterMap_eq_nil_iff]
    intro state held
    have gone := List.all_eq_true.1 ended state held
    cases state <;> cases gone
    rfl
  have fates := h.fates
  rw [unhurt.lost, nobody] at fates
  rw [h.order, h.emptied ended, unhurt.discarded]
  simpa using fates

end BlockSync.Crew
