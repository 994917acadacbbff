import BlockSync.Proofs.Sync.Runs

/-! What becomes of the view of the network, of the import queue and of the mark that a cycle is
queued. Whatever a synchronizer does comes down to a few moves there: a claim is offered to the
view, a cycle is asked for, a batch is queued, a job begins, or the queue is closed. -/
namespace BlockSync

/-- The queue takes in one more job. A queue that is closed has no room. -/
structure Backlog.HasRoom {α : Type} (b : Backlog α) : Prop where
  accepting : b.accepting = true
  short : b.jobs.length < b.capacity

theorem Backlog.push?_of_room {α : Type} {b : Backlog α} (room : b.HasRoom) (job : α) :
    b.push? job = some { b with jobs := b.jobs ++ [job] } := by
  have short := room.short
  simp [push?, isFull, room.accepting, short]

theorem Backlog.push?_of_full {α : Type} {b : Backlog α} (full : ¬ b.HasRoom) (job : α) :
    b.push? job = none := by
  refine if_neg fun taken => full ?_
  have both : b.accepting = true ∧ b.jobs.length < b.capacity := by simpa [isFull] using taken
  exact ⟨both.1, both.2⟩

namespace Synchronizer

variable {s t u : Synchronizer}

/-- Neither the view nor the import queue is touched. -/
structure Elsewhere (s t : Synchronizer) : Prop where
  view : t.view = s.view
  importJobs : t.importJobs = s.importJobs
  cycleQueued : t.cycleQueued = s.cycleQueued

theorem Elsewhere.trans (h : Elsewhere s t) (k : Elsewhere t u) : Elsewhere s u :=
  ⟨k.view.trans h.view, k.importJobs.trans h.importJobs, k.cycleQueued.trans h.cycleQueued⟩

theorem Apart.elsewhere (h : Apart s t) : Elsewhere s t := by
  obtain ⟨_, _, _, rfl⟩ := h
  exact ⟨rfl, rfl, rfl⟩

theorem elsewhere_wake (s : Synchronizer) (turn : Turn) : Elsewhere s (s.wake turn) := by
  unfold wake
  split <;> exact ⟨rfl, rfl, rfl⟩

/-- A cycle is queued if none is queued already and there is room. -/
theorem queueCycle_of_room (idle : s.cycleQueued = false) (room : s.importJobs.HasRoom) :
    s.queueCycle =
      { s with
        importJobs := { s.importJobs with jobs := s.importJobs.jobs ++ [ImportJob.cycle] }
        cycleQueued := true }.wake .imports := by
  unfold queueCycle
  rw [idle, Backlog.push?_of_room room]
  rfl

theorem queueCycle_of_none (none : ¬ (s.cycleQueued = false ∧ s.importJobs.HasRoom)) :
    s.queueCycle = s := by
  unfold queueCycle
  split
  · rfl
  · rename_i idle
    have full : ¬ s.importJobs.HasRoom := fun room => none ⟨Bool.eq_false_iff.2 idle, room⟩
    rw [Backlog.push?_of_full full]

theorem queueCycle_eq (s : Synchronizer) :
    ∃ importJobs cycleQueued turns,
      s.queueCycle = { s with importJobs, cycleQueued, turns } := by
  by_cases wanted : s.cycleQueued = false ∧ s.importJobs.HasRoom
  · rw [queueCycle_of_room wanted.1 wanted.2, wake]
    split <;> exact ⟨_, _, _, rfl⟩
  · rw [queueCycle_of_none wanted]
    exact ⟨_, _, _, rfl⟩

/-- A batch is any job but a cycle. -/
inductive Moves : Synchronizer → Synchronizer → Prop
  | elsewhere {s t : Synchronizer} (h : Elsewhere s t) : Moves s t
  | offer (s : Synchronizer) (status : NetworkStatus) :
      Moves s { s with view := (s.view.offer s.now status).2 }
  | ask (s : Synchronizer) : Moves s s.queueCycle
  | queue {s : Synchronizer} {job : ImportJob} {importJobs : Backlog ImportJob}
      (batch : job ≠ .cycle) (room : s.importJobs.push? job = some importJobs) :
      Moves s { s with importJobs }
  | batch {s : Synchronizer} {job : ImportJob} {importJobs : Backlog ImportJob}
      (batch : job ≠ .cycle) (next : s.importJobs.next? = some (job, importJobs)) :
      Moves s { s with importJobs }
  | cycle {s : Synchronizer} {importJobs : Backlog ImportJob}
      (next : s.importJobs.next? = some (.cycle, importJobs)) :
      Moves s { s with importJobs, cycleQueued := false }
  | close (s : Synchronizer) : Moves s { s with importJobs := s.importJobs.close }
  | trans {s t u : Synchronizer} (h : Moves s t) (k : Moves t u) : Moves s u

namespace Moves

theorem aside (view : t.view = s.view) (importJobs : t.importJobs = s.importJobs)
    (cycleQueued : t.cycleQueued = s.cycleQueued) : Moves s t :=
  .elsewhere ⟨view, importJobs, cycleQueued⟩

theorem refl (s : Synchronizer) : Moves s s :=
  aside rfl rfl rfl

theorem apart (h : Apart s t) : Moves s t :=
  .elsewhere h.elsewhere

theorem after (k : Moves t u) (view : t.view = s.view) (importJobs : t.importJobs = s.importJobs)
    (cycleQueued : t.cycleQueued = s.cycleQueued) : Moves s u :=
  trans (aside view importJobs cycleQueued) k

theorem wake (h : Moves s t) (turn : Turn) : Moves s (t.wake turn) :=
  h.trans (.elsewhere (elsewhere_wake t turn))

theorem askForStatus (s : Synchronizer) : Moves s s.askForStatus := by
  unfold Synchronizer.askForStatus
  generalize s.network.peers = peers
  induction peers generalizing s with
  | nil => exact refl s
  | cons p rest ih =>
    have asked : Moves s (s.recordRequest p.displayId .status) := aside rfl rfl rfl
    exact (asked.trans (apart (apart_send _ _ _ _))).trans (ih _)

theorem noteClaim (s : Synchronizer) (displayId : String) (claim : PeerStatus) :
    Moves s (s.noteClaim displayId claim) := by
  have asked : Moves s (if claim.totalDifficulty > s.chain.total then s.queueCycle else s) := by
    split
    · exact .ask s
    · exact refl s
  unfold Synchronizer.noteClaim
  generalize (if claim.totalDifficulty > s.chain.total then s.queueCycle else s) = t at asked
  have offered := asked.trans (.offer t ⟨displayId, claim⟩)
  dsimp only
  split
  · exact offered.trans (aside rfl rfl rfl)
  · exact offered

theorem takeStatus (s : Synchronizer) (peer : PeerId) (displayId : String) (status : PeerStatus) :
    Moves s (s.takeStatus peer displayId status) := by
  unfold Synchronizer.takeStatus
  dsimp only
  split
  · exact aside rfl rfl rfl
  · exact (noteClaim _ displayId status).after rfl rfl rfl

theorem takeHeaders (s : Synchronizer) (peer : PeerId) (displayId : String)
    (headers : List Header) : Moves s (s.takeHeaders peer displayId headers) := by
  unfold Synchronizer.takeHeaders
  dsimp only
  split
  · exact aside rfl rfl rfl
  · split
    · exact aside rfl rfl rfl
    · exact aside rfl rfl rfl
    · split
      · exact ((refl _).wake .bodies).after rfl rfl rfl
      · exact aside rfl rfl rfl

theorem takeBodies (s : Synchronizer) (peer : PeerId) (displayId : String) (bodies : List Bytes) :
    Moves s (s.takeBodies peer displayId bodies).2 := by
  have taken := s.takeBodies_cases peer displayId bodies
  generalize s.takeBodies peer displayId bodies = answer at taken ⊢
  cases taken <;> exact aside rfl rfl rfl

theorem importBatch (s : Synchronizer) (displayId : String) (blocks : List Block) :
    Moves s (s.importBatch displayId blocks).2 := by
  unfold Synchronizer.importBatch
  dsimp only
  split
  · exact (Moves.ask _).after rfl rfl rfl
  · exact aside rfl rfl rfl

theorem runBodies (s : Synchronizer) : Moves s s.runBodies := by
  unfold Synchronizer.runBodies
  split
  · exact refl s
  · rename_i job bodyJobs _
    have begun : Moves s { s with bodyJobs } := aside rfl rfl rfl
    have ran := begun.trans (apart (apart_runBodyJob _ job))
    dsimp only
    split
    · exact ran
    · exact ran.wake _

theorem runImportJob {job : ImportJob} {importJobs : Backlog ImportJob}
    (next : s.importJobs.next? = some (job, importJobs)) :
    Moves s ({ s with importJobs }.runImportJob job) := by
  cases job with
  | batch displayId blocks => exact (Moves.batch (by nofun) next).trans (importBatch _ displayId blocks)
  | cycle => exact (Moves.cycle next).trans (apart (apart_runCycle _))

theorem persists (s : Synchronizer) : Persists (Moves s) where
  turns h _ := h.trans (aside rfl rfl rfl)
  bodies h := h.trans (runBodies _)
  job h next := h.trans (runImportJob next)
  status h := h.trans (askForStatus _)

theorem settle (s : Synchronizer) : Moves s s.settle :=
  (persists s).settle (refl s)

theorem submit (s : Synchronizer) {job : ImportJob} (batch : job ≠ .cycle) :
    Moves s (s.submit job) :=
  (persists s).submit (refl s) (fun ready room => (ready.trans (.queue batch room)).wake _)
    fun ready _ => ready

/-- What bodies are assembled to is a batch. -/
theorem job_ne_cycle {peer : PeerId} {displayId : String} {bodies : List Bytes} {job : ImportJob}
    (given : (s.takeBodies peer displayId bodies).1 = some job) : job ≠ .cycle := by
  have taken := s.takeBodies_cases peer displayId bodies
  generalize s.takeBodies peer displayId bodies = answer at taken given
  cases taken <;> cases given
  exact nofun

theorem deliverBodies (s : Synchronizer) (peer : PeerId) (displayId : String)
    (bodies : List Bytes) : Moves s (s.deliverBodies peer displayId bodies) := by
  have taken := takeBodies s peer displayId bodies
  unfold Synchronizer.deliverBodies
  split <;> rename_i result
  · have batch := job_ne_cycle (congrArg Prod.fst result)
    rw [result] at taken
    exact taken.trans (submit _ batch)
  · rwa [result] at taken

theorem handle (s : Synchronizer) (peer : PeerId) (displayId : String) (m : Message) :
    Moves s (s.handle peer displayId m) := by
  unfold Synchronizer.handle
  split
  · exact apart (apart_send _ _ _ _)
  · exact takeStatus s peer displayId _
  · exact apart (apart_send _ _ _ _)
  · exact takeHeaders s peer displayId _
  · exact (apart (apart_send _ _ _ _)).after rfl rfl rfl
  · exact deliverBodies s peer displayId _
  · exact refl s

theorem advance (s : Synchronizer) (step : Duration) : Moves s (s.advance step) := by
  unfold Synchronizer.advance
  exact (settle s).trans ((settle _).after rfl rfl rfl)

theorem shutDown (s : Synchronizer) : Moves s s.shutDown := by
  unfold Synchronizer.shutDown
  split
  · exact refl s
  · have closing := (Moves.close s).trans (aside (t := { s with
      stopped := true, statusTimes := [], turns := s.turns.filter (· ≠ Turn.status)
      importJobs := s.importJobs.close }) rfl rfl rfl)
    exact (closing.trans (settle _)).trans (aside rfl rfl rfl)

theorem step (step : Step s t) : Moves s t := by
  cases step with
  | receive peer displayId e taken =>
    unfold Synchronizer.receive at taken
    split at taken
    · cases taken
    · split at taken <;> cases taken
      · exact handle s peer displayId _
      · exact aside rfl rfl rfl
  | handle peer displayId m => exact handle s peer displayId m
  | turn turn => exact (persists s).runTurn (refl s) turn
  | imports count => exact (persists s).runImports (refl s) count
  | cycle => exact apart (apart_runCycle s)
  | queueCycle => exact .ask s
  | askForBodies peer displayId headers => exact apart (apart_askForBodies s peer displayId headers)
  | importBatch displayId blocks => exact importBatch s displayId blocks
  | advance step => exact advance s step
  | shutDown => exact shutDown s
  | storeBatch | offered | surroundings | start => exact aside rfl rfl rfl

end Moves

end Synchronizer

end BlockSync
