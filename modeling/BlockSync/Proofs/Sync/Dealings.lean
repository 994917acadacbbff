import BlockSync.Proofs.Sync.RequestRuns

/-! Whatever a synchronizer does is part of a run that tells of requests for headers and of
batches, one in which nothing comes between the steps of a cycle. Only the headers that a peer
sends count as its answer, and only cycles ask for any. -/
namespace BlockSync

namespace Synchronizer

namespace Silent

variable {s t u : Synchronizer}

theorem trans (h : Silent s t) (k : Silent t u) : Silent s u :=
  ⟨k.requests.trans h.requests, k.headerRequests.trans h.headerRequests⟩

theorem after (k : Silent t u) (requests : t.requests = s.requests)
    (headerRequests : t.headerRequests = s.headerRequests) : Silent s u :=
  trans ⟨requests, headerRequests⟩ k

end Silent

theorem silent_emit (s : Synchronizer) {e : Effect} (other : e.headerRequest? = none) :
    Silent s (s.emit e) := by
  refine ⟨rfl, ?_⟩
  unfold headerRequests emit
  dsimp only
  rw [List.filterMap_append, List.filterMap_cons_none other, List.filterMap_nil, List.append_nil]

theorem harmless_silent : Harmless Silent where
  trans := Silent.trans
  noted _ _ _ _ _ _ := ⟨rfl, rfl⟩
  said := silent_emit
  queued _ _ _ := ⟨rfl, rfl⟩

end Synchronizer

namespace Requests.Run

open Synchronizer

variable {capacity : Nat} {log : List Deed} {b : Bearings} {s t : Synchronizer}

/-- A run leads on to a state, and no headers come on the way. -/
def Leads (capacity : Nat) (log : List Deed) (t : Synchronizer) : Prop :=
  ∃ more, (∀ peer, .headersFrom peer ∉ more) ∧ Run capacity (log ++ more) .idle t

theorem leads (h : Run capacity log .idle s) : Leads capacity log s :=
  ⟨[], fun _ => List.not_mem_nil, by rwa [List.append_nil]⟩

theorem Leads.andThen (h : Leads capacity log s)
    (next : ∀ {log}, Run capacity log .idle s → Leads capacity log t) : Leads capacity log t := by
  obtain ⟨more, quiet, run⟩ := h
  obtain ⟨rest, still, further⟩ := next run
  refine ⟨more ++ rest, ?_, by rwa [← List.append_assoc]⟩
  intro peer member
  exact (List.mem_append.1 member).elim (quiet peer) (still peer)

theorem Leads.aside (h : Leads capacity log s) (silent : s.Silent t) : Leads capacity log t :=
  h.andThen fun run => (run.aside silent).leads

theorem leads_of_deed {deed : Deed} (h : Run capacity (log ++ [deed]) .idle t)
    (other : ∀ peer, deed ≠ .headersFrom peer) : Leads capacity log t :=
  ⟨[deed], fun peer member => other peer (List.mem_singleton.1 member).symm, h⟩

theorem forget (h : Run capacity log .idle s) (peer : PeerId) :
    Leads capacity log { s with requests := s.requests.clear peer } :=
  leads_of_deed (h.other (.cleared peer) rfl) nofun

theorem storeBatch (h : Run capacity log .idle s) (peer : PeerId) (headers : List Header) :
    Leads capacity log (s.storeBatch peer headers) :=
  leads_of_deed (h.other (.stored peer headers s.now) rfl) nofun

/-- The requests of a cycle with nothing between them. -/
theorem askAll (left : List (PeerInfo × Nat)) (h : Run capacity log (.asking b left) s) :
    ∃ more, (∀ peer, .headersFrom peer ∉ more) ∧
      Run capacity (log ++ more) (.asking b []) (askAll b.start left s) := by
  induction left generalizing log s with
  | nil => exact ⟨[], fun _ => List.not_mem_nil, by rwa [List.append_nil]⟩
  | cons p rest ih =>
    have next {deed : Deed} (step : Run capacity (log ++ [deed]) (.asking b rest)
        (s.askForHeaders p.1 b.start (requestSize p.2)))
        (other : ∀ peer, deed ≠ .headersFrom peer) :
        ∃ more, (∀ peer, .headersFrom peer ∉ more) ∧
          Run capacity (log ++ more) (.asking b [])
            (Synchronizer.askAll b.start (p :: rest) s) := by
      obtain ⟨more, quiet, run⟩ := ih step
      refine ⟨deed :: more, fun peer member => ?_, ?_⟩
      · rcases List.mem_cons.1 member with same | later
        · exact other peer same.symm
        · exact quiet peer later
      · rw [List.append_cons]
        exact run
    unfold askForHeaders at next
    rcases offered : s.offerRequest p.1 b.start (requestSize p.2) with ⟨taken, t⟩
    rw [offered] at next
    cases taken with
    | true => exact next (h.send offered) nofun
    | false => exact next (h.refuse offered).reset nofun

theorem runCycle (h : Run capacity log .idle s) : Leads capacity log s.runCycle := by
  obtain ⟨more, quiet, run⟩ := h.begin.look.choose.askAll
  refine ⟨.chose s.bearings s :: more, fun peer member => ?_, ?_⟩
  · exact quiet peer ((List.mem_cons.1 member).resolve_left nofun)
  · rw [List.append_cons]
    exact run.finish

theorem runBodyJob (h : Run capacity log .idle s) (job : BodyJob) :
    Leads capacity log (s.runBodyJob job) := by
  have noted : s.Silent (s.recordRequest job.displayId .bodies) := ⟨rfl, rfl⟩
  have sent := noted.trans
    (harmless_silent.send _ job.peer job.displayId (m := .reqBlocksBodies job.hashes) rfl)
  unfold Synchronizer.runBodyJob
  split <;> rename_i result <;> rw [result] at sent
  · exact (h.aside sent).leads
  · exact (h.aside sent).forget job.peer

theorem askForBodies (h : Run capacity log .idle s) (peer : PeerId) (displayId : String)
    (headers : List Header) : Leads capacity log (s.askForBodies peer displayId headers) :=
  (h.storeBatch peer headers).andThen fun run => run.runBodyJob _

theorem takeHeaders (h : Run capacity log .idle s) (peer : PeerId) (displayId : String)
    (headers : List Header) :
    Leads capacity (log ++ [.headersFrom peer]) (s.takeHeaders peer displayId headers) := by
  have told : Run capacity (log ++ [.headersFrom peer]) .idle
      ({ s with requests := s.requests.noteAnswered peer }.recordResponse displayId .headers) :=
    (h.other (.headersFrom peer) rfl).aside ⟨rfl, rfl⟩
  unfold Synchronizer.takeHeaders
  dsimp only
  split
  · exact told.leads
  · split
    · exact told.leads.aside ((silent_emit _ rfl).after rfl rfl)
    · exact told.leads
    · rename_i fresh _ _
      have stored := told.storeBatch peer fresh
      split
      · exact stored.aside ((harmless_silent.wake _ _).after rfl rfl)
      · exact stored.andThen fun run => run.forget peer

theorem takeBodies (h : Run capacity log .idle s) (peer : PeerId) (displayId : String)
    (bodies : List Bytes) : Leads capacity log (s.takeBodies peer displayId bodies).2 := by
  have noted : Run capacity log .idle (s.recordResponse displayId .bodies) := h.aside ⟨rfl, rfl⟩
  have matched : Leads capacity log { s.recordResponse displayId .bodies with
      requests := (s.requests.take peer bodies.length s.chain.bestNumber).2 } :=
    leads_of_deed (noted.other (.taken peer bodies.length s.chain.bestNumber) rfl) nofun
  have cases := s.takeBodies_cases peer displayId bodies
  generalize s.takeBodies peer displayId bodies = answer at cases ⊢
  cases cases with
  | empty => exact noted.leads
  | unexpected _ taken =>
    rw [taken] at matched
    exact matched.aside (silent_emit _ rfl)
  | unfit _ taken =>
    rw [taken] at matched
    exact matched
  | stored _ taken =>
    rw [taken] at matched
    exact matched.aside ⟨rfl, rfl⟩
  | given _ taken =>
    rw [taken] at matched
    exact matched

theorem importBatch (h : Run capacity log .idle s) (displayId : String) (blocks : List Block) :
    Leads capacity log (s.importBatch displayId blocks).2 := by
  have pruned := leads_of_deed
    (h.other (.pruned (s.intake.importBlocks blocks).1.chain.bestNumber) rfl) nofun
  unfold Synchronizer.importBatch
  dsimp only
  split
  · refine pruned.aside ((harmless_silent.queueCycle _).after rfl ?_)
    exact (silent_emit _ rfl).headerRequests
  · exact pruned.aside ((silent_emit _ rfl).after rfl rfl)

theorem runImportJob (h : Run capacity log .idle s) (job : ImportJob) :
    Leads capacity log (s.runImportJob job) := by
  cases job with
  | batch displayId blocks => exact h.importBatch displayId blocks
  | cycle =>
    have begun : Run capacity log .idle { s with cycleQueued := false } := h.aside ⟨rfl, rfl⟩
    exact begun.runCycle

theorem runBodies (h : Run capacity log .idle s) : Leads capacity log s.runBodies := by
  unfold Synchronizer.runBodies
  split
  · exact h.leads
  · rename_i job bodyJobs _
    have begun : Run capacity log .idle { s with bodyJobs } := h.aside ⟨rfl, rfl⟩
    dsimp only
    split
    · exact begun.runBodyJob job
    · exact (begun.runBodyJob job).aside (harmless_silent.wake _ _)

theorem persists_leads (capacity : Nat) (log : List Deed) : Persists (Leads capacity log) where
  turns h _ := h.aside ⟨rfl, rfl⟩
  bodies h := h.andThen runBodies
  job {s job importJobs} h _ := by
    have begun : Leads capacity log { s with importJobs } := h.aside ⟨rfl, rfl⟩
    exact begun.andThen fun run => run.runImportJob job
  status h := h.aside (harmless_silent.askForStatus _)

theorem settle (h : Run capacity log .idle s) : Leads capacity log s.settle :=
  (persists_leads capacity log).settle h.leads

theorem submit (h : Run capacity log .idle s) (job : ImportJob) :
    Leads capacity log (s.submit job) :=
  (persists_leads capacity log).submit h.leads
    (fun ready _ => ready.aside ((harmless_silent.wake _ _).after rfl rfl)) fun ready _ => ready

theorem deliverBodies (h : Run capacity log .idle s) (peer : PeerId) (displayId : String)
    (bodies : List Bytes) : Leads capacity log (s.deliverBodies peer displayId bodies) := by
  have taken := h.takeBodies peer displayId bodies
  unfold Synchronizer.deliverBodies
  split <;> rename_i result <;> rw [result] at taken
  · exact taken.andThen fun run => run.submit _
  · exact taken

theorem advance (h : Run capacity log .idle s) (step : Duration) :
    Leads capacity log (s.advance step) := by
  unfold Synchronizer.advance
  dsimp only
  refine (h.settle.aside ?_).andThen settle
  exact ⟨rfl, rfl⟩

theorem shutDown (h : Run capacity log .idle s) : Leads capacity log s.shutDown := by
  unfold Synchronizer.shutDown
  split
  · exact h.leads
  · have closing := (h.aside (t := { s with
      stopped := true, statusTimes := [], turns := s.turns.filter (· ≠ Turn.status)
      importJobs := s.importJobs.close }) ⟨rfl, rfl⟩).settle
    exact closing.aside ⟨rfl, rfl⟩

/-- What a log tells of a message that comes. -/
def heard (peer : PeerId) : Message → List Deed
  | .resBlocksHeaders _ => [.headersFrom peer]
  | _ => []

theorem handle (h : Run capacity log .idle s) (peer : PeerId) (displayId : String) (m : Message) :
    Leads capacity (log ++ heard peer m) (s.handle peer displayId m) := by
  cases m with
  | resBlocksHeaders headers => exact h.takeHeaders peer displayId headers
  | resBlocksBodies bodies =>
    simpa [heard, Synchronizer.handle] using h.deliverBodies peer displayId bodies
  | resStatus status =>
    simpa [heard, Synchronizer.handle] using
      h.leads.aside (harmless_silent.takeStatus s peer displayId status)
  | reqStatus =>
    simpa [heard, Synchronizer.handle, reply] using
      h.leads.aside (harmless_silent.send s peer displayId (m := .resStatus s.ownStatus) rfl)
  | reqBlocksHeaders start take =>
    have sent := harmless_silent.send s peer displayId
      (m := .resBlocksHeaders (servedHeaders s.chain start take)) rfl
    simpa [heard, Synchronizer.handle, reply] using h.leads.aside sent
  | reqBlocksBodies hashes =>
    simpa [heard, Synchronizer.handle] using
      h.leads.aside (harmless_silent.serveBodies s peer displayId hashes)
  | _ => simpa [heard, Synchronizer.handle] using h.leads

/-- Every step leads a run on. Headers come on the way only if the step is to take in a message
that brings them. -/
theorem step (h : Run capacity log .idle s) (step : Step s t) :
    (∃ peer displayId headers, t = s.handle peer displayId (.resBlocksHeaders headers) ∧
        Leads capacity (log ++ [.headersFrom peer]) t) ∨ Leads capacity log t := by
  have message (peer : PeerId) (displayId : String) (m : Message)
      (same : t = s.handle peer displayId m) :
      (∃ peer displayId headers, t = s.handle peer displayId (.resBlocksHeaders headers) ∧
        Leads capacity (log ++ [.headersFrom peer]) t) ∨ Leads capacity log t := by
    have handled := h.handle peer displayId m
    rw [← same] at handled
    cases m with
    | resBlocksHeaders headers => exact .inl ⟨peer, displayId, headers, same, handled⟩
    | _ => exact .inr (by simpa [heard] using handled)
  cases step with
  | receive peer displayId e taken =>
    unfold Synchronizer.receive at taken
    split at taken
    · cases taken
    · split at taken
      · exact message peer displayId _ (Option.some.inj taken).symm
      · cases taken
        exact .inr (h.leads.aside (silent_emit s rfl))
  | handle peer displayId m => exact message peer displayId m rfl
  | turn turn => exact .inr ((persists_leads capacity log).runTurn h.leads turn)
  | imports count => exact .inr ((persists_leads capacity log).runImports h.leads count)
  | cycle => exact .inr h.runCycle
  | queueCycle => exact .inr (h.leads.aside (harmless_silent.queueCycle s))
  | storeBatch peer headers => exact .inr (h.storeBatch peer headers)
  | askForBodies peer displayId headers => exact .inr (h.askForBodies peer displayId headers)
  | importBatch displayId blocks => exact .inr (h.importBatch displayId blocks)
  | offered delivery => exact .inr (h.leads.aside ⟨rfl, rfl⟩)
  | surroundings network now => exact .inr (h.leads.aside ⟨rfl, rfl⟩)
  | start => exact .inr (h.leads.aside ⟨rfl, rfl⟩)
  | advance step => exact .inr (h.advance step)
  | shutDown => exact .inr h.shutDown

end Requests.Run

end BlockSync
