import BlockSync.Proofs.Work.Drain
import BlockSync.Work.Pool

/-! The pool on its clock follows one of the schedules of its crew. Whatever is asked of it comes
down to actions of the crew, and its log tells which jobs these started and finished. -/
namespace BlockSync.Pool

open Crew (Action)

/-- What the log says of an event. -/
def line? : Crew.Event Job → Option String
  | ⟨.started, job⟩ => some ("start " ++ job.id)
  | ⟨.finished, job⟩ => some ("end " ++ job.id)
  | _ => none

/-- The crew got from one state to the other by actions of which the log tells. -/
def Leads (p q : Pool) : Prop :=
  ∃ actions : List (Action Job),
    (p.run actions).2 = q.toCrew ∧ q.log = p.log ++ (p.run actions).1.filterMap line?

/-- None of the jobs that a pool has to do, and that come to it on the way, fails. -/
def Steady (p : Pool) (events : List (Crew.Event Job)) : Prop :=
  ∀ job ∈ p.held ++ Crew.jobs .submitted events, job.fails = false

/-- And no worker was made to stop: one retired only if its job failed. -/
def Runs (p q : Pool) : Prop :=
  ∃ actions : List (Action Job),
    (p.run actions).2 = q.toCrew ∧ q.log = p.log ++ (p.run actions).1.filterMap line? ∧
    (p.Steady (p.run actions).1 → ∀ action ∈ actions, action.spares = true)

variable {p q r : Pool} {worker : Nat} {job : Job} {crew : Crew Job}

theorem wakeFirst_toCrew (p : Pool) : p.wakeFirst.toCrew = p.toCrew := by
  unfold wakeFirst
  split
  · rfl
  · unfold wake
    split <;> rfl

theorem wakeFirst_log (p : Pool) : p.wakeFirst.log = p.log := by
  unfold wakeFirst
  split
  · rfl
  · unfold wake
    split <;> rfl

namespace Leads

theorem trans (h : Leads p q) (k : Leads q r) : Leads p r := by
  obtain ⟨actions, ran, log⟩ := h
  obtain ⟨others, further, rest⟩ := k
  refine ⟨actions ++ others, ?_, ?_⟩
  · rw [Crew.run_append, ran]
    exact further
  · rw [Crew.run_append, ran, rest, log, List.filterMap_append, List.append_assoc]

theorem retire (p : Pool) (worker : Nat) : Leads p { p with toCrew := p.retire worker } := by
  refine ⟨[.retire worker], rfl, ?_⟩
  have silent : (p.losses worker).filterMap line? = [] := by
    unfold Crew.losses
    split <;> simp [line?, List.filterMap_eq_nil_iff]
  change p.log = p.log ++ (p.losses worker ++ []).filterMap line?
  rw [List.append_nil, silent, List.append_nil]

theorem retireAll (p : Pool) (workers : List Nat) :
    Leads p { p with toCrew := workers.foldl Crew.retire p.toCrew } := by
  induction workers generalizing p with
  | nil => exact ⟨[], rfl, (List.append_nil _).symm⟩
  | cons first rest ih => exact (retire p first).trans (ih _)

end Leads

namespace Runs

theorem leads (h : Runs p q) : Leads p q := by
  obtain ⟨actions, ran, log, -⟩ := h
  exact ⟨actions, ran, log⟩

theorem aside (same : q.toCrew = p.toCrew) (log : q.log = p.log) : Runs p q :=
  ⟨[], same.symm, by rw [log]; exact (List.append_nil _).symm, fun _ => nofun⟩

theorem refl (p : Pool) : Runs p p :=
  aside rfl rfl

/-- If the first part runs without a loss, the second finds no jobs but those that the first
found or that came meanwhile. -/
theorem trans (h : Runs p q) (k : Runs q r) : Runs p r := by
  obtain ⟨actions, ran, log, fair⟩ := h
  obtain ⟨others, further, rest, later⟩ := k
  have joined := Crew.run_append p.toCrew actions others
  rw [ran] at joined
  refine ⟨actions ++ others, ?_, ?_, ?_⟩ <;> rw [joined]
  · exact further
  · rw [rest, log, List.filterMap_append, List.append_assoc]
  · intro steady action inside
    simp only [Steady, Crew.jobs_append, ← List.append_assoc] at steady
    have first := fair fun job known => steady job (List.mem_append_left _ known)
    rcases List.mem_append.1 inside with before | after
    · exact first action before
    · refine later (fun job known => ?_) action after
      rcases List.mem_append.1 known with held | asked
      · rw [← ran] at held
        exact steady job (List.mem_append_left _ (Crew.held_run first held))
      · exact steady job (List.mem_append_right _ asked)

theorem action (action : Action Job) (spares : action.spares = true)
    (done : (p.perform action).2 = q.toCrew)
    (log : q.log = p.log ++ (p.perform action).1.filterMap line?) : Runs p q := by
  refine ⟨[action], done, ?_, fun _ other inside => ?_⟩
  · change q.log = p.log ++ ((p.perform action).1 ++ []).filterMap line?
    rw [log, List.append_nil]
  · rw [List.mem_singleton.1 inside]
    exact spares

theorem wake (p : Pool) (worker : Nat) : Runs p (p.wake worker) := by
  unfold Pool.wake
  split <;> exact aside rfl rfl

theorem wakeFirst (p : Pool) : Runs p p.wakeFirst :=
  aside (wakeFirst_toCrew p) (wakeFirst_log p)

theorem wakeAll (p : Pool) (workers : List Nat) : Runs p (workers.foldl Pool.wake p) := by
  induction workers generalizing p with
  | nil => exact refl p
  | cons first rest ih => exact (wake p first).trans (ih _)

/-- A worker retires when a job fails that the pool had. -/
theorem fail (h : Runs p q) (mine : job ∈ p.held) (fails : job.fails = true) (worker : Nat) :
    Runs p { q with toCrew := q.retire worker } := by
  obtain ⟨actions, ran, log⟩ := h.leads.trans (Leads.retire q worker)
  refine ⟨actions, ran, log, fun steady => ?_⟩
  have sound := steady job (List.mem_append_left _ mine)
  rw [fails] at sound
  cases sound

theorem finish (h : Runs p q) (mine : job ∈ p.held) (worker : Nat) :
    Runs p (q.finish worker job).2 := by
  unfold Pool.finish
  split
  · rename_i fails
    exact h.fail mine fails worker
  · split
    · rename_i finished
      refine h.trans (action (.finish worker) rfl ?_ ?_) <;> rw [Crew.perform, finished] <;> rfl
    · exact h

theorem goToSleep (h : Runs p q) (mine : job ∈ p.held) (worker : Nat) :
    Runs p (q.goToSleep worker job).2 := by
  unfold Pool.goToSleep
  split
  · split
    · exact h.finish mine worker
    · exact h.trans (aside rfl rfl)
  · exact h.finish mine worker

/-- Between the taking of a job and its start another worker is woken, which changes neither the
crew nor the log. -/
theorem start (taken : p.take? worker = some (job, crew)) (same : q.toCrew = crew)
    (log : q.log = p.log) : Runs p (q.start worker job).2 := by
  have begun : Runs p (q.note ("start " ++ job.id)) := by
    refine action (.take worker) rfl ?_ ?_ <;> rw [Crew.perform, taken]
    · exact same.symm
    · exact congrArg (· ++ ["start " ++ job.id]) log
  have mine : job ∈ p.held := by
    obtain ⟨-, queue, -, next, -⟩ := Crew.take?_eq_some taken
    exact Crew.mem_held.2 (.inl (next ▸ List.mem_cons_self))
  unfold Pool.start
  dsimp only
  split
  · split
    · exact begun.goToSleep mine worker
    · exact begun.trans (aside rfl rfl)
  · exact begun.goToSleep mine worker

theorem takeJobs (fuel : Nat) (p : Pool) (worker : Nat) : Runs p (takeJobs fuel p worker) := by
  induction fuel generalizing p with
  | zero => exact refl p
  | succ fuel ih =>
    have stood : Runs p { p with toCrew := p.standInLine worker } :=
      action (.standInLine worker) rfl rfl (List.append_nil _).symm
    unfold Pool.takeJobs
    refine stood.trans ?_
    generalize ({ p with toCrew := p.standInLine worker } : Pool) = q
    dsimp only
    split
    · rename_i job crew taken
      have begun : Runs q (({ q with toCrew := crew } : Pool).wakeFirst.start worker job).2 :=
        start taken (wakeFirst_toCrew _) (wakeFirst_log _)
      split <;> rename_i result
      · rw [result] at begun
        exact begun.trans (ih _)
      · rwa [result] at begun
    · split
      · rename_i crew left
        have gone : Runs q { q with toCrew := crew } := by
          refine action (.leave worker) rfl ?_ (List.append_nil _).symm
          rw [Crew.perform, left]
          rfl
        exact gone.trans (wakeFirst _)
      · exact refl q

theorem proceed (step : Progress × Pool) (worker : Nat) : Runs p step.2 →
    Runs p (match step with
      | (.ends, q) => Pool.takeJobs (q.queue.length + 1) q worker
      | (_, q) => q) := by
  intro h
  split
  · exact h.trans (takeJobs _ _ worker)
  · exact h

theorem resume (p : Pool) (worker : Nat) : Runs p (p.resume worker) := by
  unfold Pool.resume
  dsimp only
  split
  · exact takeJobs _ p worker
  · rename_i job busy
    have mine : job ∈ p.held := Crew.mem_held.2 (.inr (.inr (List.mem_of_getElem? busy)))
    have unparked : Runs p { p with parked := p.parked.filter (·.worker ≠ worker) } := aside rfl rfl
    split
    · split
      · exact proceed _ worker (unparked.goToSleep mine worker)
      · exact refl p
    · split
      · exact proceed _ worker (unparked.finish mine worker)
      · exact refl p
    · exact refl p
  · exact refl p

theorem runReady (fuel : Nat) (p : Pool) : Runs p (runReady fuel p) := by
  induction fuel generalizing p with
  | zero => exact refl p
  | succ fuel ih =>
    unfold Pool.runReady
    split
    · exact refl p
    · rename_i worker rest _
      have chosen : Runs p { p with ready := rest } := aside rfl rfl
      exact (chosen.trans (resume _ worker)).trans (ih _)

theorem settle (p : Pool) : Runs p p.settle :=
  runReady _ p

theorem moveTo (p : Pool) (time : Instant) : Runs p (p.moveTo time) := by
  have moved : Runs p { p with now := time } := aside rfl rfl
  exact moved.trans (wakeAll _ _)

theorem runUntil (done : Pool → Bool) (limit : Instant) (fuel : Nat) (p : Pool) :
    Runs p (runUntil done limit fuel p).2 := by
  induction fuel generalizing p with
  | zero => exact moveTo p limit
  | succ fuel ih =>
    unfold Pool.runUntil
    refine (settle p).trans ?_
    dsimp only
    split
    · exact refl _
    · split
      · rename_i time _
        split
        · exact (moveTo _ time).trans (ih _)
        · exact moveTo _ limit
      · exact moveTo _ limit

theorem waitFor (p : Pool) (done : Pool → Bool) (limit : Instant) :
    Runs p (p.waitFor done limit).2 := by
  unfold Pool.waitFor
  split
  · exact refl p
  · exact runUntil done limit _ p

theorem trySubmit (p : Pool) (job : Job) : Runs p (p.trySubmit job).2 := by
  have told (answer : Except SubmitError Unit) :
      [⟨.submitted, job⟩, Crew.verdict job answer].filterMap line? = [] := by
    cases answer <;> rfl
  have asked : Runs p { p with toCrew := (p.toCrew.trySubmit job).2 } := by
    refine action (.trySubmit job) rfl rfl ?_
    change p.log = p.log ++ [⟨.submitted, job⟩, Crew.verdict job _].filterMap line?
    rw [told, List.append_nil]
  unfold Pool.trySubmit
  split <;> rename_i result <;> rw [result] at asked
  · exact asked.trans (wakeFirst _)
  · exact asked

theorem enter (entered : p.enter job = .ok crew) : Runs p { p with toCrew := crew } := by
  refine action (.enter job) rfl ?_ ?_ <;> rw [Crew.perform, entered]
  exact (List.append_nil _).symm

theorem giveUp (p : Pool) (submitter : Nat) :
    Runs p { p with toCrew := p.giveUp submitter } := by
  refine action (.giveUp submitter) rfl rfl ?_
  have silent : (p.waiting[submitter]?.toList.map (Crew.Event.mk .withdrawn)).filterMap line? = [] := by
    simp [line?, List.filterMap_eq_nil_iff]
  exact (silent ▸ (List.append_nil p.log)).symm

theorem letIn {submitter : Nat} {answer : Except SubmitError Unit}
    (answered : p.letIn? submitter = some (answer, crew)) :
    Runs p { p with toCrew := crew } := by
  refine action (.letIn submitter) rfl ?_ ?_ <;> rw [Crew.perform, answered]
  have silent : (p.waiting[submitter]?.toList.map (Crew.verdict · answer)).filterMap line? = [] := by
    cases answer <;> simp [line?, Crew.verdict, List.filterMap_eq_nil_iff]
  exact (silent ▸ (List.append_nil p.log)).symm

theorem submit (p : Pool) (job : Job) (patience : Duration) :
    Runs p (p.submit job patience).2 := by
  unfold Pool.submit
  split
  · rename_i cause refused
    refine action (.enter job) rfl ?_ ?_ <;> rw [Crew.perform, refused]
    exact (List.append_nil _).symm
  · rename_i crew entered
    refine (enter entered).trans ?_
    generalize ({ p with toCrew := crew } : Pool) = q
    dsimp only
    have waited : Runs q (if q.hasEnded || q.hasRoom then q
        else (q.waitFor (fun p => p.hasEnded || p.hasRoom) (q.now + patience)).2) := by
      split
      · exact refl q
      · exact waitFor q _ _
    generalize (if q.hasEnded || q.hasRoom then q else _) = r at waited ⊢
    refine waited.trans ?_
    split
    · rename_i answered
      exact (letIn answered).trans (wakeFirst _)
    · rename_i answered
      exact letIn answered
    · exact giveUp _ _

theorem openGate (p : Pool) (gate : String) : Runs p (p.openGate gate) := by
  have opened : Runs p { p with opened := gate :: p.opened } := aside rfl rfl
  exact opened.trans (wakeAll _ _)

end Runs

theorem moveTo_now (p : Pool) (time : Instant) : (p.moveTo time).now = time := by
  have kept (workers : List Nat) (q : Pool) : (workers.foldl wake q).now = q.now := by
    induction workers generalizing q with
    | nil => rfl
    | cons first rest ih =>
      rw [List.foldl_cons, ih]
      unfold wake
      split <;> rfl
  exact kept _ _

/-- A wait ends with what is waited for, or not before its limit. -/
theorem runUntil_spec (done : Pool → Bool) (limit : Instant) (fuel : Nat) (p : Pool) :
    let result := runUntil done limit fuel p
    (result.1 = true → done result.2 = true) ∧ (result.1 = false → limit ≤ result.2.now) := by
  induction fuel generalizing p with
  | zero => exact ⟨nofun, fun _ => Nat.le_of_eq (moveTo_now p limit).symm⟩
  | succ fuel ih =>
    unfold runUntil
    dsimp only
    split
    · rename_i reached
      exact ⟨fun _ => reached, nofun⟩
    · split
      · split
        · exact ih _
        · exact ⟨nofun, fun _ => Nat.le_of_eq (moveTo_now _ limit).symm⟩
      · exact ⟨nofun, fun _ => Nat.le_of_eq (moveTo_now _ limit).symm⟩

theorem waitFor_spec (done : Pool → Bool) (limit : Instant) (p : Pool) :
    let result := p.waitFor done limit
    (result.1 = true → done result.2 = true) ∧ (result.1 = false → limit ≤ result.2.now) := by
  unfold waitFor
  split
  · rename_i late
    exact ⟨nofun, fun _ => late⟩
  · exact runUntil_spec done limit _ p

/-- Workers are made to stop only when the time for the shutdown is over. -/
theorem shutDown_spec (p : Pool) (grace : Duration) :
    let result := p.shutDown grace
    Leads p result.2 ∧
      (p.accepting = true → result.1 < grace → result.2.hasEnded = true ∧ Runs p result.2) := by
  unfold shutDown
  split
  · have closed : Runs p { p with toCrew := p.close } :=
      .action .close rfl rfl (List.append_nil _).symm
    have waited := (closed.trans (Runs.wakeFirst _)).trans
      (Runs.waitFor _ (fun p => p.hasEnded) (p.now + grace))
    have outcome := waitFor_spec (fun p => p.hasEnded) (p.now + grace)
      { p with toCrew := p.close }.wakeFirst
    dsimp only
    split <;> rename_i last result <;> rw [result] at waited outcome
    · exact ⟨waited.leads, fun _ _ => ⟨outcome.1 rfl, waited⟩⟩
    · have stopped := waited.leads.trans (Leads.retireAll last (List.range last.workers.length))
      refine ⟨stopped.trans (Runs.aside rfl rfl).leads, fun _ inTime => ?_⟩
      exact absurd (Nat.le_sub_of_add_le' (outcome.2 rfl)) (Nat.not_le.2 inTime)
  · rename_i refuses
    exact ⟨(Runs.refl p).leads, fun accepts => absurd accepts refuses⟩

/-! Nobody enters or leaves while a submitter waits: what the workers do leaves the line of the
submitters as it is. -/

@[simp] theorem waiting_standInLine (c : Crew Job) (worker : Nat) :
    (c.standInLine worker).waiting = c.waiting := by
  unfold Crew.standInLine
  split
  · split <;> rfl
  · rfl

theorem waiting_wake (p : Pool) (worker : Nat) : (p.wake worker).waiting = p.waiting := by
  unfold wake
  split <;> rfl

theorem waiting_finish (p : Pool) (worker : Nat) (job : Job) :
    (p.finish worker job).2.waiting = p.waiting := by
  unfold finish
  split
  · rfl
  · split
    · rename_i finished
      obtain ⟨-, rfl⟩ := Crew.finish?_eq_some finished
      rfl
    · rfl

theorem waiting_goToSleep (p : Pool) (worker : Nat) (job : Job) :
    (p.goToSleep worker job).2.waiting = p.waiting := by
  unfold goToSleep
  split
  · split
    · exact waiting_finish p worker job
    · rfl
  · exact waiting_finish p worker job

theorem waiting_start (p : Pool) (worker : Nat) (job : Job) :
    (p.start worker job).2.waiting = p.waiting := by
  unfold start
  dsimp only
  split
  · split
    · exact waiting_goToSleep _ worker job
    · rfl
  · exact waiting_goToSleep _ worker job

theorem waiting_takeJobs (fuel : Nat) (p : Pool) (worker : Nat) :
    (takeJobs fuel p worker).waiting = p.waiting := by
  induction fuel generalizing p with
  | zero => rfl
  | succ fuel ih =>
    unfold takeJobs
    dsimp only
    split
    · rename_i job crew taken
      obtain ⟨_, _, -, -, rfl⟩ := Crew.take?_eq_some taken
      generalize begun : ({ p with toCrew := _ } : Pool).wakeFirst = q
      have same : q.waiting = p.waiting := by
        rw [← begun, wakeFirst_toCrew]
        exact waiting_standInLine p.toCrew worker
      have started := waiting_start q worker job
      split <;> rename_i result <;> rw [result] at started
      · exact (ih _).trans (started.trans same)
      · exact started.trans same
    · split
      · rename_i crew left
        obtain ⟨-, -, -, -, rfl⟩ := Crew.leave?_eq_some left
        rw [wakeFirst_toCrew]
        exact waiting_standInLine p.toCrew worker
      · exact waiting_standInLine p.toCrew worker

theorem waiting_resume (p : Pool) (worker : Nat) : (p.resume worker).waiting = p.waiting := by
  have proceed (step : Progress × Pool) (same : step.2.waiting = p.waiting) :
      (match step with
        | (.ends, q) => takeJobs (q.queue.length + 1) q worker
        | (_, q) => q).waiting = p.waiting := by
    split
    · exact (waiting_takeJobs _ _ worker).trans same
    · exact same
  unfold resume
  dsimp only
  split
  · exact waiting_takeJobs _ p worker
  · rename_i job _
    split
    · split
      · exact proceed _ (waiting_goToSleep _ worker job)
      · rfl
    · split
      · exact proceed _ (waiting_finish _ worker job)
      · rfl
    · rfl
  · rfl

theorem waiting_settle (p : Pool) : p.settle.waiting = p.waiting := by
  have ready (fuel : Nat) (q : Pool) : (runReady fuel q).waiting = q.waiting := by
    induction fuel generalizing q with
    | zero => rfl
    | succ fuel ih =>
      unfold runReady
      split
      · rfl
      · exact (ih _).trans (waiting_resume _ _)
  exact ready _ p

theorem waiting_moveTo (p : Pool) (time : Instant) : (p.moveTo time).waiting = p.waiting := by
  have woken (workers : List Nat) (q : Pool) : (workers.foldl wake q).waiting = q.waiting := by
    induction workers generalizing q with
    | nil => rfl
    | cons first rest ih => rw [List.foldl_cons, ih, waiting_wake]
  exact woken _ _

theorem waiting_waitFor (p : Pool) (done : Pool → Bool) (limit : Instant) :
    (p.waitFor done limit).2.waiting = p.waiting := by
  have reached (fuel : Nat) (q : Pool) : (runUntil done limit fuel q).2.waiting = q.waiting := by
    induction fuel generalizing q with
    | zero => exact waiting_moveTo q limit
    | succ fuel ih =>
      unfold runUntil
      dsimp only
      split
      · exact waiting_settle q
      · split
        · split
          · exact (ih _).trans ((waiting_moveTo _ _).trans (waiting_settle q))
          · exact (waiting_moveTo _ _).trans (waiting_settle q)
        · exact (waiting_moveTo _ _).trans (waiting_settle q)
  unfold waitFor
  split
  · rfl
  · exact reached _ p

/-- Who waits is answered as soon as there is room or no worker is left. -/
theorem letIn?_ne_none {submitter : Nat} (held : crew.waiting[submitter]? = some job)
    (answers : (crew.hasEnded || crew.hasRoom) = true) : crew.letIn? submitter ≠ none := by
  unfold Crew.letIn?
  rw [held]
  dsimp only
  split
  · nofun
  · rename_i active
    rw [Bool.eq_false_iff.2 active, Bool.false_or] at answers
    rw [if_pos answers]
    nofun

/-- The answer is that of the crew, and so is what becomes of the job. -/
theorem trySubmit_spec (p : Pool) (job : Job) :
    (p.trySubmit job).1 = (p.toCrew.trySubmit job).1 ∧
      (p.trySubmit job).2.toCrew = (p.toCrew.trySubmit job).2 := by
  unfold trySubmit
  split <;> rename_i result <;> rw [result]
  · exact ⟨rfl, wakeFirst_toCrew _⟩
  · exact ⟨rfl, rfl⟩

def Submission.of : Except SubmitError Unit → Submission
  | .ok _ => .accepted
  | .error cause => .refused cause

/-- What comes of a submission that may wait. The crew does not let the submitter enter, or it
answers as soon as it can, or the patience of the submitter runs out first. -/
inductive Submits (p : Pool) (job : Job) (patience : Duration) : Submission → Crew Job → Prop
  | closed (cause : SubmitError) (refused : p.enter job = .error cause) :
      Submits p job patience (.refused cause) p.toCrew
  | answered (crew : Crew Job) (q : Pool) (answer : Except SubmitError Unit) (after : Crew Job)
      (entered : p.enter job = .ok crew) (waited : Runs { p with toCrew := crew } q)
      (letIn : q.letIn? p.waiting.length = some (answer, after)) :
      Submits p job patience (.of answer) after
  | late (crew : Crew Job) (q : Pool) (entered : p.enter job = .ok crew)
      (waited : Runs { p with toCrew := crew } q)
      (unanswered : q.letIn? p.waiting.length = none) (spent : p.now + patience ≤ q.now) :
      Submits p job patience .waiting (q.giveUp p.waiting.length)

theorem submit_spec (p : Pool) (job : Job) (patience : Duration) :
    Submits p job patience (p.submit job patience).1 (p.submit job patience).2.toCrew := by
  unfold submit
  split
  · rename_i cause refused
    exact .closed cause refused
  · rename_i crew entered
    have line : crew.waiting = p.waiting ++ [job] := by
      unfold Crew.enter at entered
      split at entered
      · cases entered
        rfl
      · cases entered
    generalize begun : ({ p with toCrew := crew } : Pool) = q
    dsimp only
    have waited : ∀ r, (if q.hasEnded || q.hasRoom then q
        else (q.waitFor (fun p => p.hasEnded || p.hasRoom) (q.now + patience)).2) = r →
        Runs q r ∧ r.waiting = q.waiting ∧
          ((r.hasEnded || r.hasRoom) = true ∨ q.now + patience ≤ r.now) := by
      rintro r rfl
      split
      · rename_i answers
        exact ⟨.refl q, rfl, .inl answers⟩
      · have outcome := waitFor_spec (fun p => p.hasEnded || p.hasRoom) (q.now + patience) q
        refine ⟨.waitFor q _ _, waiting_waitFor q _ _, ?_⟩
        cases answered : (q.waitFor (fun p => p.hasEnded || p.hasRoom) (q.now + patience)).1 with
        | true => exact .inl (outcome.1 answered)
        | false => exact .inr (outcome.2 answered)
    generalize result : (if q.hasEnded || q.hasRoom then q else _) = r
    obtain ⟨runs, same, ends⟩ := waited r result
    rw [← begun] at runs same ends
    split
    · rename_i after letIn
      rw [wakeFirst_toCrew]
      exact .answered crew r (.ok _) after entered runs letIn
    · rename_i cause after letIn
      exact .answered crew r (.error cause) after entered runs letIn
    · rename_i unanswered
      refine .late crew r entered runs unanswered (ends.resolve_left fun answers => ?_)
      have held : r.waiting[p.waiting.length]? = some job := by
        rw [same, line]
        exact List.getElem?_concat_length
      exact letIn?_ne_none held answers unanswered

/-- All that can be asked of a pool. -/
inductive Step : Pool → Pool → Prop
  | trySubmit (p : Pool) (job : Job) : Step p (p.trySubmit job).2
  | submit (p : Pool) (job : Job) (patience : Duration) : Step p (p.submit job patience).2
  | openGate (p : Pool) (gate : String) : Step p (p.openGate gate)
  | settle (p : Pool) : Step p p.settle
  | advance (p : Pool) (length : Duration) : Step p (p.advance length)

theorem Step.runs (step : Step p q) : Runs p q := by
  cases step with
  | trySubmit job => exact Runs.trySubmit p job
  | submit job patience => exact Runs.submit p job patience
  | openGate gate => exact Runs.openGate p gate
  | settle => exact Runs.settle p
  | advance length => exact Runs.waitFor p _ _

end BlockSync.Pool
