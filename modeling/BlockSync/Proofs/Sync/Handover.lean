import BlockSync.Proofs.Sync.Course
import BlockSync.Proofs.Sync.Exchange
import BlockSync.Proofs.Sync.Screening
import Mathlib.Logic.Function.Basic

/-! Where the blocks come from that a synchronizer hands to the chain. Each batch of them has
the headers of one message and the bodies of a later one from the same peer, and no message of
headers is behind two batches. Of each peer at most the last message is awaited bodies for, and
what is queued was awaited before, so a message is awaited, queued, handed over or forgotten,
and never goes back. -/
namespace BlockSync

/-- What a block needs of the bodies that came: one that its header names. -/
def Block.FitsOne (block : Block) (bodies : List Bytes) : Prop :=
  block.body.root = block.header.txRoot ∧ ∃ raw ∈ bodies, Body.decode raw = .ok block.body

theorem Synchronizer.assemble_spec (headers : List Header) (bodies : List Bytes) :
    ((assemble headers bodies).map Block.header).Sublist headers ∧
      ∀ block ∈ assemble headers bodies, block.FitsOne bodies := by
  induction headers, bodies using assemble.induct with
  | case1 header headers body bodies block made ih =>
    obtain ⟨rfl, root, decoded⟩ := Block.assemble?_eq_some_iff.1 made
    rw [assemble, made]
    refine ⟨ih.1.cons_cons _, ?_⟩
    rintro other (_ | ⟨_, member⟩)
    · exact ⟨root, body, List.mem_cons_self, decoded⟩
    · obtain ⟨fits, raw, came, read⟩ := ih.2 other member
      exact ⟨fits, raw, List.mem_cons_of_mem _ came, read⟩
  | case2 header headers body bodies unmade =>
    rw [assemble, unmade]
    exact ⟨List.nil_sublist _, fun _ member => absurd member List.not_mem_nil⟩
  | case3 headers bodies short =>
    unfold assemble
    split
    · exact absurd rfl (short _ _ _ _ rfl)
    · exact ⟨List.nil_sublist _, fun _ member => absurd member List.not_mem_nil⟩

/-- Some headers came in one message, in this order, all of whose headers are accepted and
build on one another. -/
def Screened (validate : Validator) (log : List Event) (source : Nat) (peer : PeerId)
    (fresh : List Header) : Prop :=
  ∃ headers, log[source]? = some (.headers peer headers) ∧ (∀ h ∈ headers, validate h = .ok ()) ∧
    headers.IsChain Header.Precedes ∧ fresh.Sublist headers

/-- The headers of some blocks came screened, and their bodies in a later message from the
same peer. -/
def Stems (validate : Validator) (log : List Event) (source : Nat) (blocks : List Block) : Prop :=
  ∃ peer place bodies, source < place ∧ log[place]? = some (.bodies peer bodies) ∧
    Screened validate log source peer (blocks.map Block.header) ∧
      ∀ block ∈ blocks, block.FitsOne bodies

variable {validate : Validator} {log : List Event} {source : Nat → Nat} {number : Nat}
  {peer : PeerId} {blocks : List Block} {owed : List (Nat × List Block)}
  {awaited : List (PeerId × Batch)}

theorem getElem?_of_append {place : Nat} {event : Event} (said : log[place]? = some event)
    (more : List Event) : (log ++ more)[place]? = some event := by
  rw [List.getElem?_append_left (List.getElem?_eq_some_iff.1 said).1, said]

theorem Screened.append {fresh : List Header} (h : Screened validate log number peer fresh)
    (more : List Event) : Screened validate (log ++ more) number peer fresh := by
  obtain ⟨headers, came, vetted⟩ := h
  exact ⟨headers, getElem?_of_append came more, vetted⟩

theorem Screened.lt {fresh : List Header} (h : Screened validate log number peer fresh) :
    number < log.length := by
  obtain ⟨headers, came, -⟩ := h
  exact (List.getElem?_eq_some_iff.1 came).1

theorem Stems.append (h : Stems validate log number blocks) (more : List Event) :
    Stems validate (log ++ more) number blocks := by
  obtain ⟨peer, place, bodies, later, came, screened, fit⟩ := h
  exact ⟨peer, place, bodies, later, getElem?_of_append came more, screened.append more, fit⟩

theorem Stems.part {part : List Block} (h : Stems validate log number blocks)
    (fewer : part.Sublist blocks) : Stems validate log number part := by
  obtain ⟨peer, place, bodies, later, came, ⟨headers, sent, valid, linked, fresh⟩, fit⟩ := h
  exact ⟨peer, place, bodies, later, came,
    ⟨headers, sent, valid, linked, (fewer.map Block.header).trans fresh⟩,
    fun block member => fit block (fewer.subset member)⟩

theorem Stems.lt (h : Stems validate log number blocks) : number < log.length := by
  obtain ⟨_, _, _, _, _, screened, _⟩ := h
  exact screened.lt

/-- No blocks that stem from a message of headers were handed over. -/
def Unspent (log : List Event) (source : Nat → Nat) (number : Nat) : Prop :=
  ∀ place, (handedAt? log place).isSome → source place ≠ number

/-- The account of a log. Whatever was handed over, is owed to the chain or is awaited stems
from its own message of headers. -/
structure Account (validate : Validator) (log : List Event) (source : Nat → Nat)
    (owed : List (Nat × List Block)) (awaited : List (PeerId × Batch)) : Prop where
  handed : ∀ place blocks, handedAt? log place = some blocks →
    Stems validate (log.take place) (source place) blocks
  once : ∀ place other, (handedAt? log place).isSome → (handedAt? log other).isSome →
    source place = source other → place = other
  owing : ∀ pair ∈ owed, Stems validate log pair.1 pair.2 ∧ Unspent log source pair.1
  distinct : (owed.map Prod.fst).Nodup
  awaiting : ∀ entry ∈ awaited, ∃ number,
    Screened validate log number entry.1 entry.2.headers ∧ number ∉ owed.map Prod.fst ∧
      Unspent log source number

theorem handedAt?_lt {place : Nat} (handed : handedAt? log place = some blocks) :
    place < log.length := by
  obtain ⟨event, said, -⟩ := Option.bind_eq_some_iff.1 handed
  exact (List.getElem?_eq_some_iff.1 said).1

theorem handedAt?_concat (log : List Event) (event : Event) (place : Nat) :
    handedAt? (log ++ [event]) place =
      if place = log.length then event.handed? else handedAt? log place := by
  unfold handedAt?
  split
  · rename_i last
    rw [last, List.getElem?_concat_length, Option.bind_some]
  · rename_i other
    rcases Nat.lt_or_gt_of_ne other with before | after
    · rw [List.getElem?_append_left before]
    · have beyond : (log ++ [event]).length ≤ place := by
        rw [List.length_append]
        exact after
      rw [List.getElem?_eq_none beyond, List.getElem?_eq_none (Nat.le_of_lt after)]

theorem handedAt?_tell {event : Event} (silent : event.handed? = none) (log : List Event) :
    handedAt? (log ++ [event]) = handedAt? log := by
  funext place
  rw [handedAt?_concat]
  split
  · rename_i last
    rw [silent, handedAt?, List.getElem?_eq_none (Nat.le_of_eq last.symm), Option.bind_none]
  · rfl

theorem Unspent.tell {event : Event} (h : Unspent log source number)
    (silent : event.handed? = none) : Unspent (log ++ [event]) source number := by
  intro place handed
  rw [handedAt?_tell silent] at handed
  exact h place handed

theorem Unspent.handOver {other : Nat} (h : Unspent log source other) (apart : number ≠ other)
    (route : BatchRoute) (part : List Block) :
    Unspent (log ++ [.handedOver route part]) (Function.update source log.length number) other := by
  intro place handed
  rw [handedAt?_concat] at handed
  split at handed
  · rename_i last
    rwa [last, Function.update_self]
  · rename_i before
    rw [Function.update_of_ne before]
    exact h place handed

namespace Account

variable {later : List (PeerId × Batch)}

theorem unspent_length (h : Account validate log source owed awaited) :
    Unspent log source log.length := by
  intro place handed same
  obtain ⟨blocks, handed⟩ := Option.isSome_iff_exists.1 handed
  have before := (h.handed place blocks handed).lt
  rw [same, List.length_take] at before
  omega

theorem length_not_owed (h : Account validate log source owed awaited) :
    log.length ∉ owed.map Prod.fst := by
  intro listed
  obtain ⟨pair, member, same⟩ := List.mem_map.1 listed
  have before := (h.owing pair member).1.lt
  omega

theorem fewer (h : Account validate log source owed awaited) (fewer : later ⊆ awaited) :
    Account validate log source owed later :=
  { h with awaiting := fun entry listed => h.awaiting entry (fewer listed) }

theorem perm {others : List (Nat × List Block)} (h : Account validate log source owed awaited)
    (same : owed.Perm others) : Account validate log source others awaited where
  handed := h.handed
  once := h.once
  owing pair member := h.owing pair (same.mem_iff.2 member)
  distinct := (same.map Prod.fst).nodup_iff.1 h.distinct
  awaiting entry listed := by
    obtain ⟨number, screened, unowed, unspent⟩ := h.awaiting entry listed
    exact ⟨number, screened, fun member => unowed ((same.map Prod.fst).mem_iff.2 member), unspent⟩

theorem lose (h : Account validate log source ((number, blocks) :: owed) awaited) :
    Account validate log source owed awaited where
  handed := h.handed
  once := h.once
  owing pair member := h.owing pair (List.mem_cons_of_mem _ member)
  distinct := (List.nodup_cons.1 h.distinct).2
  awaiting entry listed := by
    obtain ⟨number, screened, unowed, unspent⟩ := h.awaiting entry listed
    exact ⟨number, screened, fun member => unowed (List.mem_cons_of_mem _ member), unspent⟩

theorem tell (h : Account validate log source owed awaited) (event : Event)
    (silent : event.handed? = none) : Account validate (log ++ [event]) source owed awaited where
  handed place blocks handed := by
    rw [handedAt?_tell silent] at handed
    rw [List.take_append_of_le_length (Nat.le_of_lt (handedAt?_lt handed))]
    exact h.handed place blocks handed
  once := by
    rw [handedAt?_tell silent]
    exact h.once
  owing pair member := ⟨(h.owing pair member).1.append _, (h.owing pair member).2.tell silent⟩
  distinct := h.distinct
  awaiting entry listed := by
    obtain ⟨number, screened, unowed, unspent⟩ := h.awaiting entry listed
    exact ⟨number, screened.append _, unowed, unspent.tell silent⟩

theorem await {headers : List Header} {known : Hash → Bool}
    (h : Account validate log source owed awaited)
    (came : ∀ entry ∈ later, entry ∈ awaited ∨
      entry.1 = peer ∧ screen validate known headers = .ok entry.2.headers) :
    Account validate (log ++ [.headers peer headers]) source owed later := by
  have told := h.tell (.headers peer headers) rfl
  refine { told with awaiting := ?_ }
  intro entry listed
  rcases came entry listed with old | ⟨rfl, screened⟩
  · exact told.awaiting entry old
  · obtain ⟨⟨valid, linked⟩, left⟩ := screen_eq_ok_iff.1 screened
    have part : entry.2.headers.Sublist headers := left ▸ List.filter_sublist
    exact ⟨log.length, ⟨headers, List.getElem?_concat_length, valid, linked, part⟩,
      h.length_not_owed, h.unspent_length.tell rfl⟩

/-- What bodies make with the headers that they are awaited for is owed to the chain. -/
theorem fit {batch : Batch} (h : Account validate log source owed awaited)
    (listed : (peer, batch) ∈ awaited) (bodies : List Bytes) :
    ∃ number, Account validate (log ++ [.bodies peer bodies]) source
      ((number, Synchronizer.assemble batch.headers bodies) :: owed)
      (awaited.filter fun entry => entry.1 ≠ peer) := by
  have told := h.tell (.bodies peer bodies) rfl
  obtain ⟨number, screened, unowed, unspent⟩ := h.awaiting _ listed
  obtain ⟨part, fit⟩ := Synchronizer.assemble_spec batch.headers bodies
  refine ⟨number, { told with owing := ?_, distinct := ?_, awaiting := ?_ }⟩
  · rintro pair (_ | ⟨_, member⟩)
    · obtain ⟨headers, came, valid, linked, fresh⟩ := screened.append [.bodies peer bodies]
      exact ⟨⟨peer, log.length, bodies, screened.lt, List.getElem?_concat_length,
        ⟨headers, came, valid, linked, part.trans fresh⟩, fit⟩, unspent.tell rfl⟩
    · exact told.owing pair member
  · rw [List.map_cons]
    exact List.nodup_cons.2 ⟨unowed, h.distinct⟩
  · intro entry kept
    obtain ⟨listed, apart⟩ := List.mem_filter.1 kept
    obtain ⟨other, vetted, absent, fresh⟩ := told.awaiting entry listed
    refine ⟨other, vetted, ?_, fresh⟩
    rw [List.map_cons, List.mem_cons]
    rintro (rfl | member)
    · -- one message came from one peer
      obtain ⟨headers, came, -⟩ := screened.append [.bodies peer bodies]
      obtain ⟨others, sent, -⟩ := vetted
      rw [came] at sent
      cases sent
      simp at apart
    · exact absent member

/-- What is owed is handed over, or a part of it in the same order. -/
theorem handOver {part : List Block}
    (h : Account validate log source ((number, blocks) :: owed) awaited)
    (fewer : part.Sublist blocks) (route : BatchRoute) :
    Account validate (log ++ [.handedOver route part]) (Function.update source log.length number)
      owed awaited := by
  obtain ⟨stems, unspent⟩ := h.owing _ List.mem_cons_self
  obtain ⟨absent, distinct⟩ := List.nodup_cons.1 h.distinct
  refine ⟨?_, ?_, ?_, distinct, ?_⟩
  · intro place others handed
    rw [handedAt?_concat] at handed
    split at handed
    · rename_i last
      cases handed
      rw [last, List.take_left, Function.update_self]
      exact stems.part fewer
    · rename_i before
      rw [List.take_append_of_le_length (Nat.le_of_lt (handedAt?_lt handed)),
        Function.update_of_ne before]
      exact h.handed place others handed
  · intro place other here there same
    rw [handedAt?_concat] at here there
    -- the new place has a source of its own, since nothing owed was handed over before
    by_cases last : place = log.length <;> by_cases latest : other = log.length
    · rw [last, latest]
    · rw [if_neg latest] at there
      rw [last, Function.update_self, Function.update_of_ne latest] at same
      exact absurd same.symm (unspent other there)
    · rw [if_neg last] at here
      rw [latest, Function.update_self, Function.update_of_ne last] at same
      exact absurd same (unspent place here)
    · rw [if_neg last] at here
      rw [if_neg latest] at there
      rw [Function.update_of_ne last, Function.update_of_ne latest] at same
      exact h.once place other here there same
  · intro pair member
    obtain ⟨still, free⟩ := h.owing pair (List.mem_cons_of_mem _ member)
    refine ⟨still.append _, free.handOver ?_ route part⟩
    intro same
    exact absent (List.mem_map.2 ⟨pair, member, same.symm⟩)
  · intro entry listed
    obtain ⟨other, screened, unowed, free⟩ := h.awaiting entry listed
    rw [List.map_cons, List.mem_cons, not_or] at unowed
    exact ⟨other, screened.append _, unowed.2, free.handOver (Ne.symm unowed.1) route part⟩

end Account

theorem account_nil (validate : Validator) : Account validate [] source [] [] := by
  refine ⟨?_, ?_, ?_, .nil, ?_⟩
  · intro place blocks handed
    exact absurd (handedAt?_lt handed) (Nat.not_lt_zero _)
  · intro place _ handed
    obtain ⟨blocks, handed⟩ := Option.isSome_iff_exists.1 handed
    exact absurd (handedAt?_lt handed) (Nat.not_lt_zero _)
  · exact fun _ member => absurd member List.not_mem_nil
  · exact fun _ member => absurd member List.not_mem_nil

theorem owed_of_perm {rest : List (List Block)} (same : (owed.map Prod.snd).Perm (blocks :: rest)) :
    ∃ number others, owed.Perm ((number, blocks) :: others) ∧ (others.map Prod.snd).Perm rest := by
  obtain ⟨⟨number, _⟩, member, rfl⟩ := List.mem_map.1 (same.mem_iff.2 List.mem_cons_self)
  have moved := List.perm_cons_erase member
  refine ⟨number, owed.erase _, moved, ?_⟩
  have all := (moved.map Prod.snd).symm.trans same
  exact (List.perm_cons _).1 all

namespace Synchronizer

variable {first s t : Synchronizer} {hand : List ImportJob}

/-- The chain is what came of it by the events of the log, and there is an account of them in
which the batches in hand and in the queue are owed. -/
structure Accounted (first : Synchronizer) (log : List Event) (hand : List ImportJob)
    (s : Synchronizer) : Prop where
  validate : s.validate = first.validate
  chain : s.chain = replay first.chain log
  account : ∃ source owed,
    Account first.validate log source owed s.requests.batches.entries ∧
      (owed.map Prod.snd).Perm (batches (hand ++ s.importJobs.jobs))

namespace Accounted

theorem lull (h : Accounted first log hand s) (k : Lull s t) : Accounted first log hand t := by
  obtain ⟨source, owed, account, queued⟩ := h.account
  exact ⟨k.validate.trans h.validate, k.chain.trans h.chain, source, owed,
    account.fewer k.awaited, queued.trans (k.owed hand)⟩

theorem takeHeaders (h : Accounted first log hand s) (peer : PeerId) (displayId : String)
    (headers : List Header) :
    Accounted first (log ++ [.headers peer headers]) hand (s.takeHeaders peer displayId headers) := by
  obtain ⟨source, owed, account, queued⟩ := h.account
  have taken := awaits_takeHeaders s peer displayId headers
  have came := taken.awaited
  rw [h.validate] at came
  refine ⟨taken.validate.trans h.validate, ?_, source, owed, account.await came, ?_⟩
  · rw [taken.chain, h.chain, replay_append]
    rfl
  · rwa [batches_append, taken.queued, ← batches_append]

theorem takeBodies {job : Option ImportJob} {events : List Event} {displayId : String}
    {bodies : List Bytes} (h : Accounted first log hand s)
    (fits : Matches s peer displayId bodies job events t) :
    Accounted first (log ++ .bodies peer bodies :: events) (hand ++ job.toList) t := by
  obtain ⟨source, owed, account, queued⟩ := h.account
  have told : Accounted first (log ++ [.bodies peer bodies]) hand s := by
    refine ⟨h.validate, ?_, source, owed, account.tell _ rfl, queued⟩
    rw [h.chain, replay_append]
    rfl
  cases fits with
  | nothing lull =>
    rw [Option.toList_none, List.append_nil]
    exact told.lull lull
  | pending listed chain lull =>
    obtain ⟨number, fit⟩ := account.fit listed bodies
    have handed := (fit.handOver (List.Sublist.refl _) .pending).fewer lull.awaited
    rw [Option.toList_none, List.append_nil, List.append_cons]
    refine ⟨lull.validate.trans h.validate, ?_, _, owed, handed, queued.trans (lull.owed hand)⟩
    rw [chain, told.chain, replay_append _ (log ++ _)]
    rfl
  | @intake _ batch listed lull =>
    obtain ⟨number, fit⟩ := account.fit listed bodies
    refine ⟨lull.validate.trans h.validate, lull.chain.trans told.chain, source, _,
      fit.fewer lull.awaited, ?_⟩
    generalize assemble batch.headers bodies = blocks
    have added : (batches (hand ++ .batch displayId blocks :: s.importJobs.jobs)).Perm
        (blocks :: batches (hand ++ s.importJobs.jobs)) := batches_perm List.perm_middle
    rw [List.append_cons] at added
    exact ((queued.cons _).trans added.symm).trans (lull.owed _)

theorem done {job : ImportJob} {importJobs : Backlog ImportJob} (h : Accounted first log hand s)
    (next : s.importJobs.next? = some (job, importJobs)) :
    Accounted first (log ++ s.imported job) hand ({ s with importJobs }.runImportJob job) := by
  obtain ⟨source, owed, account, queued⟩ := h.account
  obtain ⟨chain, lull⟩ := lull_runImportJob { s with importJobs } job
  have same := lull.owed hand
  have ran : ({ s with importJobs }.runImportJob job).chain =
      replay first.chain (log ++ s.imported job) := by
    rw [chain, replay_append, ← h.chain]
    rfl
  rw [Backlog.jobs_of_next? next] at queued
  replace queued := queued.trans (batches_perm List.perm_middle)
  cases job with
  | cycle =>
    refine ⟨lull.validate.trans h.validate, ran, source, owed, ?_, ?_⟩
    · rw [imported, List.append_nil]
      exact account.fewer lull.awaited
    · exact queued.trans same
  | batch displayId blocks =>
    obtain ⟨number, others, moved, kept⟩ := owed_of_perm queued
    have handed := (account.perm moved).handOver (s.intake.offers_sublist blocks) .intake
    exact ⟨lull.validate.trans h.validate, ran, _, others, handed.fewer lull.awaited,
      kept.trans same⟩

end Accounted

theorem Course.accounted (course : Course first log hand s)
    (nothing_awaited : first.requests.batches.entries = [])
    (nothing_queued : first.importJobs.jobs = []) : Accounted first log hand s := by
  induction course with
  | new =>
    refine ⟨rfl, rfl, id, [], ?_, ?_⟩
    · rw [nothing_awaited]
      exact account_nil _
    · rw [nothing_queued]
      exact .nil
  | headers before peer displayId headers ih => exact ih.takeHeaders peer displayId headers
  | bodies before peer displayId bodies ih =>
    exact ih.takeBodies (matches_takeBodies _ peer displayId bodies)
  | @queued log front job back s importJobs before room ih =>
    -- the same batches are owed, in another order
    obtain ⟨source, owed, account, queued⟩ := ih.account
    refine ⟨ih.validate, ih.chain, source, owed, account, queued.trans ?_⟩
    rw [Backlog.jobs_of_push? room, List.append_assoc, List.cons_append,
      ← List.append_assoc (front ++ back), List.append_assoc front]
    exact batches_perm (List.perm_middle.trans (List.perm_append_singleton _ _).symm)
  | @lost log front job back s before refused ih =>
    obtain ⟨source, owed, account, queued⟩ := ih.account
    rw [List.append_assoc, List.cons_append] at queued
    replace queued := queued.trans (batches_perm List.perm_middle)
    rw [← List.append_assoc] at queued
    cases job with
    | cycle => exact ⟨ih.validate, ih.chain, source, owed, account, queued⟩
    | batch displayId blocks =>
      obtain ⟨number, others, moved, kept⟩ := owed_of_perm queued
      exact ⟨ih.validate, ih.chain, source, others, (account.perm moved).lose, kept⟩
  | done before next ih => exact ih.done next
  | bodyRequest before ih => exact ih.lull (lull_runBodies _)
  | status before peer displayId status ih =>
    exact ih.lull (harmless_lull.takeStatus _ peer displayId status)
  | askForStatus before ih => exact ih.lull (harmless_lull.askForStatus _)
  | cycle before ih => exact ih.lull (lull_runCycle _)
  | queueCycle before ih => exact ih.lull (harmless_lull.queueCycle _)
  | reply before peer displayId m ih => exact ih.lull (lull_send _ peer displayId m)
  | serveBodies before peer displayId hashes ih =>
    exact ih.lull (harmless_lull.serveBodies _ peer displayId hashes)
  | elsewhere before delivery ih =>
    obtain ⟨source, owed, account, queued⟩ := ih.account
    refine ⟨ih.validate, ?_, source, owed, account.tell _ rfl, queued⟩
    rw [replay_append, ← ih.chain]
    rfl
  | aside _ _ _ _ _ _ _ _ _ _ ih => exact ih.lull ⟨rfl, rfl, List.Subset.refl _, rfl⟩

theorem kept_of_taken {displayId : String} {bodies : List Bytes} {job : ImportJob}
    (taken : (s.takeBodies peer displayId bodies).1 = some job) : s.kept peer bodies = [] := by
  have fits := matches_takeBodies s peer displayId bodies
  rw [taken] at fits
  generalize s.kept peer bodies = events at fits
  cases fits
  rfl

/-- Whatever happened since the start, what a synchronizer did to its chain was to hand over
blocks with accepted headers that came linked in one message and bodies that came later from
the same peer and have the roots that the headers name. The blocks of one message are handed
over at most once, in its order. -/
theorem handed_over_once {config : SyncConfig} {validate : Validator} {chain : Chain}
    {started : Instant} (course : Course (.new config validate chain started) log hand s) :
    s.chain = replay chain log ∧ ∃ source : Nat → Nat,
      (∀ place blocks, handedAt? log place = some blocks →
        Stems validate (log.take place) (source place) blocks) ∧
      ∀ place other, (handedAt? log place).isSome → (handedAt? log other).isSome →
        source place = source other → place = other := by
  obtain ⟨-, grown, source, owed, account, -⟩ := course.accounted rfl rfl
  exact ⟨grown, source, account.handed, account.once⟩

end Synchronizer

namespace Chain.Fork

open Synchronizer

/-- The first block comes from a peer, header and body, and is handed over. -/
theorem first_handed_over : ∃ s : Synchronizer,
    Course (.new {} (fun _ => .ok ()) (.new start {}) 0)
        [.headers ⟨1⟩ [first.header], .bodies ⟨1⟩ [first.body.encode], .handedOver .intake [first]]
        [] s ∧
      s.chain = ((Chain.new start {}).offer first).2 ∧
      ∃ number, Stems (fun _ => .ok ())
        [.headers ⟨1⟩ [first.header], .bodies ⟨1⟩ [first.body.encode]] number [first] := by
  obtain ⟨genesis, fresh⟩ : ∃ chain, chain = Chain.new start {} := ⟨_, rfl⟩
  have low : genesis.bestNumber = 0 := by
    rw [fresh]
    exact (bestNumber_eq (ledger_new start {}).genesis_stored).trans rfl
  rw [← fresh]
  have begun : Course (.new {} (fun _ => .ok ()) genesis 0) [] []
    (.new {} (fun _ => .ok ()) genesis 0) := .new
  -- the header comes
  obtain ⟨requests, _, _, taken, awaited⟩ := takeHeaders_fresh
    (s := .new {} (fun _ => .ok ()) genesis 0) (List.cons_ne_nil first.header [])
    (show screen _ _ [first.header] = _ from rfl) rfl ⟨1⟩ "server"
  have asked := begun.headers ⟨1⟩ "server" [first.header]
  generalize takeHeaders _ ⟨1⟩ "server" [first.header] = asking at taken asked
  have chain : asking.chain = genesis := by rw [taken]; rfl
  -- its body comes
  have fit : assemble ([first].map Block.header) ([first].map fun block => block.body.encode) =
      [first] := by
    refine assemble_encode ?_ ?_
    · intro block listed
      rw [List.mem_singleton.1 listed]
      rfl
    · intro block listed
      rw [List.mem_singleton.1 listed]
      simp only [first, child]
      decide
  have answered := takeBodies_batch (s := asking) (by rw [taken]; exact awaited)
    (Batch.isExpired_of_le _ (by rw [chain, low]; decide)) rfl fit (by rw [chain, low]; rfl) "server"
  have course := asked.bodies ⟨1⟩ "server" ([first].map fun block => block.body.encode)
  rw [kept_of_taken (congrArg Prod.fst answered), answered] at course
  -- the block waits for its turn and is handed over
  generalize noted : { asking.recordResponse "server" .bodies with
    requests := asking.requests.clear ⟨1⟩ } = owing at course
  have room : owing.importJobs.push? (.batch "server" [first]) =
      some ⟨importQueue, [.batch "server" [first]], true⟩ := by
    rw [← noted, taken]
    exact push?_new (by decide) _
  have held : Course _ _ ([] ++ .batch "server" [first] :: []) owing := course
  have done := (held.queued room).done rfl
  have handed : imported { owing with
      importJobs := ⟨importQueue, [.batch "server" [first]], true⟩ } (.batch "server" [first]) =
      [.handedOver .intake [first]] := by
    rw [← noted, taken]
    rfl
  rw [handed] at done
  obtain ⟨grown, source, stems, -⟩ := handed_over_once done
  exact ⟨_, done, grown, source 2, stems 2 [first] rfl⟩

end Chain.Fork

end BlockSync
