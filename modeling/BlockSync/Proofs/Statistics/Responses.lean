import BlockSync.Proofs.Recency
import BlockSync.Proofs.Statistics.Notes
import Mathlib.Data.Finset.Prod
import Mathlib.Data.List.Induction

/-! Requests and their responses. As long as there is room for all peers that are asked, three
tables keep what can be said of each peer and kind alone: how many requests there were, when the
one was that is still pending, and how long the answered ones took. So a response is matched with
the last request of its peer and kind if no other response came since, and a request is answered
once at most. -/
namespace BlockSync

namespace PerKind

variable {α : Type}

def ofFn (f : RequestKind → α) : PerKind α :=
  ⟨f .status, f .headers, f .bodies⟩

@[simp] theorem get_ofFn (f : RequestKind → α) (kind : RequestKind) :
    (ofFn f).get kind = f kind := by
  cases kind <;> rfl

@[simp] theorem get_const (a : α) (kind : RequestKind) : (const a).get kind = a := by
  cases kind <;> rfl

theorem eq_ofFn_iff {p : PerKind α} {f : RequestKind → α} :
    p = ofFn f ↔ ∀ kind, p.get kind = f kind := by
  constructor
  · rintro rfl kind
    exact get_ofFn f kind
  · intro same
    obtain ⟨status, headers, bodies⟩ := p
    simp only [ofFn, ← same]
    rfl

end PerKind

namespace Statistics

variable {s : Statistics} {notes : List Note} {n : Note} {peer other : String} {kind : RequestKind}
  {now sent : Instant} {keys : Finset String}

namespace Note

/-- The peer that is asked. -/
def asks? : Note → Option String
  | request peer _ _ => some peer
  | _ => none

def asks (peer : String) (kind : RequestKind) : Note → Bool
  | request p k _ => p = peer ∧ k = kind
  | _ => false

/-- A request or a response of the peer and the kind. -/
def concerns (peer : String) (kind : RequestKind) : Note → Bool
  | request p k _ | response p k _ => p = peer ∧ k = kind
  | _ => false

end Note

def asked (notes : List Note) : Finset String :=
  (notes.filterMap Note.asks?).toFinset

def requestCount (notes : List Note) (peer : String) (kind : RequestKind) : Nat :=
  notes.countP (Note.asks peer kind)

/-- What is known of the requests of one kind to one peer. -/
structure Line where
  pending : Option Instant
  times : ResponseTimes

def Line.answer (l : Line) (now : Instant) : Line :=
  match l.pending with
  | none => l
  | some sent => ⟨none, l.times.add ⟨1, now.since sent⟩⟩

def Line.note (peer : String) (kind : RequestKind) (l : Line) : Note → Line
  | .request p k now => if p = peer ∧ k = kind then { l with pending := some now } else l
  | .response p k now => if p = peer ∧ k = kind then l.answer now else l
  | _ => l

def line (notes : List Note) (peer : String) (kind : RequestKind) : Line :=
  notes.foldl (Line.note peer kind) ⟨none, .zero⟩

theorem line_concat (notes : List Note) (n : Note) (peer : String) (kind : RequestKind) :
    line (notes ++ [n]) peer kind = (line notes peer kind).note peer kind n :=
  List.foldl_concat _ _ _ _

theorem requestCount_concat (notes : List Note) (n : Note) (peer : String) (kind : RequestKind) :
    requestCount (notes ++ [n]) peer kind =
      requestCount notes peer kind + if n.asks peer kind then 1 else 0 := by
  simp [requestCount, List.countP_cons]

theorem mem_asked_concat :
    peer ∈ asked (notes ++ [n]) ↔ peer ∈ asked notes ∨ n.asks? = some peer := by
  simp [asked]

theorem Line.pending_answer (l : Line) (now : Instant) : (l.answer now).pending = none := by
  unfold answer
  split
  · assumption
  · rfl

/-- A line changes by the notes that concern it alone. -/
theorem Line.note_of_unconcerned (aside : n.concerns peer kind = false) (l : Line) :
    l.note peer kind n = l := by
  cases n with
  | request p k now => exact if_neg (by simpa [Note.concerns] using aside)
  | response p k now => exact if_neg (by simpa [Note.concerns] using aside)
  | imported | blocks | served => rfl

theorem Line.note_cases (l : Line) (n : Note) (peer : String) (kind : RequestKind) :
    (n.concerns peer kind = false ∧ l.note peer kind n = l) ∨
    (∃ now, n = .request peer kind now ∧ l.note peer kind n = { l with pending := some now }) ∨
    ∃ now, n = .response peer kind now ∧ l.note peer kind n = l.answer now := by
  by_cases aside : n.concerns peer kind = false
  · exact .inl ⟨aside, note_of_unconcerned aside l⟩
  · cases n with
    | request p k now =>
      obtain ⟨rfl, rfl⟩ : p = peer ∧ k = kind := by simpa [Note.concerns] using aside
      exact .inr (.inl ⟨now, rfl, if_pos ⟨rfl, rfl⟩⟩)
    | response p k now =>
      obtain ⟨rfl, rfl⟩ : p = peer ∧ k = kind := by simpa [Note.concerns] using aside
      exact .inr (.inr ⟨now, rfl, if_pos ⟨rfl, rfl⟩⟩)
    | imported | blocks | served => exact absurd rfl aside

theorem requestCount_of_not_asked (absent : peer ∉ asked notes) :
    requestCount notes peer kind = 0 := by
  refine List.countP_eq_zero.2 fun n listed asks => absent ?_
  refine List.mem_toFinset.2 (List.mem_filterMap.2 ⟨n, listed, ?_⟩)
  cases n with
  | request p k now => simpa [Note.asks?] using (of_decide_eq_true asks).1
  | imported | response | blocks | served => cases asks

/-- The requests to a peer by kind, if there were any. -/
def counts (notes : List Note) (peer : String) : Option (PerKind Nat) :=
  if peer ∈ asked notes then some (.ofFn (requestCount notes peer)) else none

theorem getD_counts (notes : List Note) (peer : String) :
    (counts notes peer).getD (.const 0) = .ofFn (requestCount notes peer) := by
  unfold counts
  split
  · rfl
  · rename_i absent
    exact PerKind.eq_ofFn_iff.2 fun kind => by
      rw [Option.getD_none, PerKind.get_const, requestCount_of_not_asked absent]

theorem counts_concat_request (notes : List Note) (peer other : String) (kind : RequestKind)
    (now : Instant) : counts (notes ++ [.request peer kind now]) other =
      if peer = other then some ((PerKind.ofFn (requestCount notes peer)).modify kind (· + 1))
      else counts notes other := by
  unfold counts
  by_cases same : peer = other
  · subst same
    rw [if_pos (mem_asked_concat.2 (.inr rfl)), if_pos rfl, Option.some_inj, eq_comm,
      PerKind.eq_ofFn_iff]
    intro k
    rw [PerKind.get_modify, PerKind.get_ofFn, requestCount_concat]
    by_cases this : kind = k <;> simp [Note.asks, this]
  · have unasked : requestCount (notes ++ [.request peer kind now]) other =
        requestCount notes other := by
      funext k
      rw [requestCount_concat]
      simp [Note.asks, same]
    simp [mem_asked_concat, Note.asks?, same, unasked]

theorem counts_concat_of_silent (silent : n.asks? = none) :
    counts (notes ++ [n]) peer = counts notes peer := by
  have unasked : requestCount (notes ++ [n]) peer = requestCount notes peer := by
    funext k
    rw [requestCount_concat]
    cases n with
    | request => cases silent
    | imported | response | blocks | served => rfl
  simp [counts, mem_asked_concat, silent, unasked]

/-- The tables keep the lines of all peers. -/
structure Tables (keys : Finset String) (notes : List Note) (s : Statistics) : Prop where
  requests : Recency.Maps keys s.requests (counts notes)
  sentAt : Recency.Maps (keys ×ˢ RequestKind.all.toFinset) s.sentAt fun entry =>
    (line notes entry.1 entry.2).pending
  responses : ∃ f, Recency.Maps keys s.responses f ∧
    ∀ peer kind, ((f peer).getD (.const .zero)).get kind = (line notes peer kind).times

theorem tables_new {capacity : Nat} (room : keys.card ≤ capacity) (started : Instant) :
    Tables keys [] (new capacity started) where
  requests := (Recency.Maps.new room).congr fun _ => rfl
  sentAt := by
    refine (Recency.Maps.new ?_).congr fun _ => rfl
    rw [Finset.card_product, Nat.mul_comm]
    exact Nat.mul_le_mul_left 3 room
  responses := ⟨_, Recency.Maps.new room, fun _ _ => by simp [line]⟩

theorem Tables.request (h : Tables keys notes s) (member : peer ∈ keys) (kind : RequestKind)
    (now : Instant) :
    Tables keys (notes ++ [.request peer kind now]) (s.recordRequest peer kind now) where
  requests := by
    refine (h.requests.upsert member (.const 0) (·.modify kind (· + 1))).congr fun other => ?_
    rw [counts_concat_request, getD_counts]
  sentAt := by
    have inside : (peer, kind) ∈ keys ×ˢ RequestKind.all.toFinset :=
      Finset.mem_product.2 ⟨member, by cases kind <;> simp [RequestKind.all]⟩
    refine (h.sentAt.insert inside now).congr ?_
    rintro ⟨other, k⟩
    rw [line_concat, Line.note, apply_ite Line.pending]
    simp only [Prod.mk.injEq]
  responses := by
    obtain ⟨f, maps, times⟩ := h.responses
    refine ⟨f, maps, fun other k => ?_⟩
    rw [times, line_concat, Line.note]
    split <;> rfl

theorem line_concat_response (notes : List Note) (peer other : String) (kind k : RequestKind)
    (now : Instant) : line (notes ++ [.response peer kind now]) other k =
      if peer = other ∧ kind = k then (line notes peer kind).answer now else line notes other k := by
  rw [line_concat, Line.note]
  split
  · rename_i same
    obtain ⟨rfl, rfl⟩ := same
    rfl
  · rfl

theorem Tables.response (h : Tables keys notes s) (peer : String) (kind : RequestKind)
    (now : Instant) :
    Tables keys (notes ++ [.response peer kind now]) (s.recordResponse peer kind now).2 := by
  have found := h.sentAt.value (peer, kind)
  have requests : Recency.Maps keys s.requests (counts (notes ++ [.response peer kind now])) :=
    h.requests.congr fun _ => counts_concat_of_silent rfl
  obtain ⟨f, maps, times⟩ := h.responses
  cases pending : (line notes peer kind).pending with
  | none =>
    rw [pending] at found
    have same (other : String) (k : RequestKind) :
        line (notes ++ [.response peer kind now]) other k = line notes other k := by
      rw [line_concat_response, Line.answer, pending]
      split
      · rename_i this
        rw [this.1, this.2]
      · rfl
    rw [recordResponse, Recency.erase, found]
    exact ⟨requests, h.sentAt.congr fun entry => by rw [same], f, maps, fun other k => by
      rw [times, same]⟩
  | some sent =>
    rw [pending] at found
    have member : peer ∈ keys :=
      (Finset.mem_product.1 (h.sentAt.inside _ (Recency.mem_of_peek? found))).1
    have after (other : String) (k : RequestKind) :
        line (notes ++ [.response peer kind now]) other k =
          if peer = other ∧ kind = k then
            ⟨none, (line notes peer kind).times.add ⟨1, now.since sent⟩⟩
          else line notes other k := by
      rw [line_concat_response, Line.answer, pending]
    have erased := h.sentAt.erase (peer, kind)
    rw [recordResponse]
    unfold Recency.erase at erased ⊢
    rw [found]
    refine ⟨requests, erased.congr ?_, _, maps.upsert member (.const .zero)
      (·.modify kind (·.add ⟨1, now.since sent⟩)), fun other k => ?_⟩
    · rintro ⟨other, k⟩
      rw [after, apply_ite Line.pending]
      simp only [Prod.mk.injEq]
    · rw [after]
      by_cases same : peer = other
      · subst same
        rw [if_pos rfl, Option.getD_some, PerKind.get_modify, times]
        by_cases this : kind = k
        · simp [this]
        · simp [this]
      · rw [if_neg same, if_neg (by simp [same]), times]

theorem Tables.aside (h : Tables keys notes s) {t : Statistics} (requests : t.requests = s.requests)
    (sentAt : t.sentAt = s.sentAt) (responses : t.responses = s.responses)
    (silent : n.asks? = none) (aside : ∀ peer kind, n.concerns peer kind = false) :
    Tables keys (notes ++ [n]) t := by
  have same (peer : String) (kind : RequestKind) :
      line (notes ++ [n]) peer kind = line notes peer kind := by
    rw [line_concat, Line.note_of_unconcerned (aside peer kind)]
  obtain ⟨f, maps, times⟩ := h.responses
  refine ⟨?_, ?_, f, responses ▸ maps, fun peer kind => by rw [times, same]⟩
  · rw [requests]
    exact h.requests.congr fun _ => counts_concat_of_silent silent
  · rw [sentAt]
    exact h.sentAt.congr fun entry => by rw [same]

theorem Tables.note (h : Tables keys notes s) (n : Note)
    (inside : ∀ peer, n.asks? = some peer → peer ∈ keys) :
    Tables keys (notes ++ [n]) (s.note n) := by
  cases n with
  | request peer kind now => exact h.request (inside peer rfl) kind now
  | response peer kind now => exact h.response peer kind now
  | imported n => exact h.aside rfl rfl rfl rfl fun _ _ => rfl
  | blocks peer outcome n =>
    rw [Statistics.note, recordBlocks]
    split <;> exact h.aside rfl rfl rfl rfl fun _ _ => rfl
  | served peer n =>
    rw [Statistics.note, recordServed]
    split <;> exact h.aside rfl rfl rfl rfl fun _ _ => rfl

theorem tables_noteAll {capacity : Nat} (room : keys.card ≤ capacity) (started : Instant)
    (inside : asked notes ⊆ keys) : Tables keys notes ((new capacity started).noteAll notes) := by
  induction notes using List.reverseRecOn with
  | nil => exact tables_new room started
  | append_singleton notes last ih =>
    rw [noteAll_append, noteAll_singleton]
    refine (ih fun peer member => inside (mem_asked_concat.2 (.inl member))).note last ?_
    exact fun peer asks => inside (mem_asked_concat.2 (.inr asks))

/-- A line is pending exactly since its last request, if nothing that concerns it came later. -/
theorem pending_eq_some_iff : (line notes peer kind).pending = some sent ↔
    ∃ front back, notes = front ++ .request peer kind sent :: back ∧
      ∀ note ∈ back, note.concerns peer kind = false := by
  constructor
  -- from the end, where the note that decides stands
  · induction notes using List.reverseRecOn with
    | nil => exact fun pending => nomatch pending
    | append_singleton notes last ih =>
      intro pending
      rw [line_concat] at pending
      rcases (line notes peer kind).note_cases last peer kind with
        ⟨aside, same⟩ | ⟨now, rfl, asked⟩ | ⟨now, rfl, answered⟩
      · rw [same] at pending
        obtain ⟨front, back, rfl, quiet⟩ := ih pending
        refine ⟨front, back ++ [last], by simp, fun note member => ?_⟩
        rcases List.mem_append.1 member with old | new
        · exact quiet note old
        · rwa [List.mem_singleton.1 new]
      · rw [asked] at pending
        cases pending
        exact ⟨notes, [], rfl, by simp⟩
      · rw [answered, Line.pending_answer] at pending
        cases pending
  · rintro ⟨front, back, rfl, quiet⟩
    induction back using List.reverseRecOn with
    | nil => rw [line_concat, Line.note, if_pos ⟨rfl, rfl⟩]
    | append_singleton back last ih =>
      rw [← List.cons_append, ← List.append_assoc, line_concat,
        Line.note_of_unconcerned (quiet last (by simp))]
      exact ih fun note member => quiet note (List.mem_append_left _ member)

/-- The response at one place is to the request at another: nothing of their peer and kind
stands between them. -/
structure Answers (notes : List Note) (peer : String) (kind : RequestKind) (asking : Nat)
    (sent : Instant) (answering : Nat) (now : Instant) : Prop where
  request : notes[asking]? = some (.request peer kind sent)
  response : notes[answering]? = some (.response peer kind now)
  before : asking < answering
  alone : ∀ place, asking < place → place < answering → ∀ note, notes[place]? = some note →
    note.concerns peer kind = false

/-- What the call at a place gives. -/
def given (s : Statistics) (notes : List Note) (place : Nat) : Option Duration :=
  match notes[place]? with
  | some (.response peer kind now) =>
    ((s.noteAll (notes.take place)).recordResponse peer kind now).1
  | _ => none

theorem split_iff_place {α : Type} {l : List α} {a : α} {p : α → Bool} :
    (∃ front back, l = front ++ a :: back ∧ ∀ x ∈ back, p x = false) ↔
      ∃ place : Nat, l[place]? = some a ∧
        ∀ later, place < later → ∀ x, l[later]? = some x → p x = false := by
  constructor
  · rintro ⟨front, back, rfl, quiet⟩
    refine ⟨front.length, by simp, fun later after x found => ?_⟩
    obtain ⟨m, rfl⟩ : ∃ m, later = front.length + (m + 1) := ⟨later - front.length - 1, by omega⟩
    rw [List.getElem?_append_right (by omega), Nat.add_sub_cancel_left,
      List.getElem?_cons_succ] at found
    exact quiet x (List.mem_of_getElem? found)
  · rintro ⟨place, found, quiet⟩
    obtain ⟨inside, rfl⟩ := List.getElem?_eq_some_iff.1 found
    refine ⟨l.take place, l.drop (place + 1), ?_, fun x member => ?_⟩
    · rw [← List.drop_eq_getElem_cons inside, List.take_append_drop]
    · obtain ⟨m, held⟩ := List.mem_iff_getElem?.1 member
      rw [List.getElem?_drop] at held
      exact quiet _ (by omega) x held

theorem recordResponse_fst (s : Statistics) (peer : String) (kind : RequestKind) (now : Instant) :
    (s.recordResponse peer kind now).1 = (s.sentAt.peek? (peer, kind)).map now.since := by
  unfold recordResponse Recency.erase
  cases s.sentAt.peek? (peer, kind) <;> rfl

theorem given_eq {capacity : Nat} {started : Instant} (room : keys.card ≤ capacity)
    (inside : asked notes ⊆ keys) {place : Nat}
    (response : notes[place]? = some (.response peer kind now)) :
    (new capacity started).given notes place =
      (line (notes.take place) peer kind).pending.map now.since := by
  have fewer : asked (notes.take place) ⊆ keys := by
    refine fun other member => inside ?_
    obtain ⟨n, listed, asks⟩ := List.mem_filterMap.1 (List.mem_toFinset.1 member)
    exact List.mem_toFinset.2 (List.mem_filterMap.2 ⟨n, List.mem_of_mem_take listed, asks⟩)
  rw [given, response]
  dsimp only
  rw [recordResponse_fst, (tables_noteAll room started fewer).sentAt.value]

theorem pending_take_iff {place : Nat} :
    (line (notes.take place) peer kind).pending = some sent ↔
      ∃ asking < place, notes[asking]? = some (.request peer kind sent) ∧
        ∀ later, asking < later → later < place → ∀ note, notes[later]? = some note →
          note.concerns peer kind = false := by
  rw [pending_eq_some_iff, split_iff_place]
  simp only [List.getElem?_take]
  constructor
  · rintro ⟨asking, found, quiet⟩
    split at found
    · rename_i before
      refine ⟨asking, before, found, fun later after earlier note held => ?_⟩
      exact quiet later after note (by rw [if_pos earlier, held])
    · cases found
  · rintro ⟨asking, before, found, quiet⟩
    refine ⟨asking, by rw [if_pos before, found], fun later after note held => ?_⟩
    split at held
    · rename_i earlier
      exact quiet later after earlier note held
    · cases held

theorem given_eq_some_iff {capacity : Nat} {started : Instant} (room : keys.card ≤ capacity)
    (inside : asked notes ⊆ keys) {place : Nat} {elapsed : Duration} :
    (new capacity started).given notes place = some elapsed ↔
      ∃ peer kind asking sent now, Answers notes peer kind asking sent place now ∧
        elapsed = now - sent := by
  constructor
  · intro result
    cases found : notes[place]? with
    | none => rw [given, found] at result; cases result
    | some n =>
      cases n with
      | response peer kind now =>
        rw [given_eq room inside found, Option.map_eq_some_iff] at result
        obtain ⟨sent, pending, rfl⟩ := result
        obtain ⟨asking, before, request, alone⟩ := pending_take_iff.1 pending
        exact ⟨peer, kind, asking, sent, now, ⟨request, found, before, alone⟩, rfl⟩
      | imported | request | blocks | served => rw [given, found] at result; cases result
  · rintro ⟨peer, kind, asking, sent, now, answers, rfl⟩
    rw [given_eq room inside answers.response,
      pending_take_iff.2 ⟨asking, answers.before, answers.request, answers.alone⟩]
    rfl

/-- A request has no second response: the first one stands between. -/
theorem Answers.unique {k : RequestKind} {asking first second : Nat} {sent' now' : Instant}
    (h : Answers notes peer kind asking sent first now)
    (h' : Answers notes other k asking sent' second now') : first = second := by
  have same := h.request.symm.trans h'.request
  cases same
  rcases Nat.lt_trichotomy first second with earlier | same | later
  · exact absurd (h'.alone first h.before earlier _ h.response) (by simp [Note.concerns])
  · exact same
  · exact absurd (h.alone second h'.before later _ h'.response) (by simp [Note.concerns])

/-- How many responses of a peer and kind were given a time. -/
def answeredCount (s : Statistics) (notes : List Note) (peer : String) (kind : RequestKind) : Nat :=
  (List.range notes.length).countP fun place =>
    notes[place]?.any (Note.concerns peer kind) && (s.given notes place).isSome

theorem answeredCount_concat (s : Statistics) (notes : List Note) (n : Note) (peer : String)
    (kind : RequestKind) : s.answeredCount (notes ++ [n]) peer kind =
      s.answeredCount notes peer kind +
        if n.concerns peer kind && (s.given (notes ++ [n]) notes.length).isSome then 1 else 0 := by
  have earlier : ∀ place ∈ List.range notes.length,
      (((notes ++ [n])[place]?.any (Note.concerns peer kind) &&
        (s.given (notes ++ [n]) place).isSome) = true ↔
      (notes[place]?.any (Note.concerns peer kind) && (s.given notes place).isSome) = true) := by
    intro place listed
    have bound := List.mem_range.1 listed
    rw [given, given, List.getElem?_append_left bound, List.take_append_of_le_length bound.le]
  rw [answeredCount, List.length_append, List.length_singleton, List.range_succ, List.countP_append,
    List.countP_congr earlier, List.countP_singleton, List.getElem?_concat_length, Option.any_some]
  rfl

/-- What is recorded of the responses of a peer. -/
def recorded (s : Statistics) (peer : String) (kind : RequestKind) : ResponseTimes :=
  ((s.responses.peek? peer).getD (.const .zero)).get kind

theorem count_line {capacity : Nat} {started : Instant} (room : keys.card ≤ capacity)
    (inside : asked notes ⊆ keys) (peer : String) (kind : RequestKind) :
    (line notes peer kind).times.count = (new capacity started).answeredCount notes peer kind := by
  induction notes using List.reverseRecOn with
  | nil => rfl
  | append_singleton notes last ih =>
    have before := ih fun peer member => inside (mem_asked_concat.2 (.inl member))
    rw [answeredCount_concat, ← before, line_concat]
    rcases (line notes peer kind).note_cases last peer kind with
      ⟨aside, same⟩ | ⟨now, rfl, asked⟩ | ⟨now, rfl, answered⟩
    · simp [same, aside]
    · simp [asked, given]
    · rw [given_eq room inside List.getElem?_concat_length, List.take_left' rfl, answered,
        Line.answer]
      cases (line notes peer kind).pending <;> simp [Note.concerns, ResponseTimes.add]

/-- There is a request for each answer, and one more for what is pending. -/
theorem count_line_le (notes : List Note) (peer : String) (kind : RequestKind) :
    (line notes peer kind).times.count + (line notes peer kind).pending.toList.length ≤
      requestCount notes peer kind := by
  induction notes using List.reverseRecOn with
  | nil => exact Nat.le_refl 0
  | append_singleton notes last ih =>
    rw [line_concat, requestCount_concat]
    rcases (line notes peer kind).note_cases last peer kind with
      ⟨-, same⟩ | ⟨now, rfl, asked⟩ | ⟨now, rfl, answered⟩
    · rw [same]
      omega
    · simp only [asked, Note.asks, and_self, if_true, decide_true, Option.toList_some,
        List.length_singleton]
      omega
    · rw [answered, Line.pending_answer, Line.answer]
      cases pending : (line notes peer kind).pending with
      | none => simpa [pending, Note.asks] using ih
      | some sent => simpa [pending, ResponseTimes.add, Note.asks] using ih

/-- As long as no more peers are asked than there is room for, a response is given a time exactly
if it answers a request, the time since that one or none if the clock went back; no request is
answered twice; of each peer and kind as many responses are recorded as were given a time, which
are never more than its requests; and the requests of each peer are counted by kind. -/
theorem responses_of_notes {capacity : Nat} (started : Instant)
    (room : (asked notes).card ≤ capacity) :
    let s := (new capacity started).noteAll notes
    (∀ place elapsed, (new capacity started).given notes place = some elapsed ↔
      ∃ peer kind asking sent now, Answers notes peer kind asking sent place now ∧
        elapsed = now - sent) ∧
    (∀ peer kind asking sent first now, Answers notes peer kind asking sent first now →
      ∀ other k sent' second now', Answers notes other k asking sent' second now' →
        first = second) ∧
    (∀ peer kind,
      (s.recorded peer kind).count = (new capacity started).answeredCount notes peer kind ∧
      (s.recorded peer kind).count ≤ requestCount notes peer kind) ∧
    ∀ peer, s.requestsOf? peer =
      if peer ∈ asked notes then some (.ofFn (requestCount notes peer)) else none := by
  intro s
  have tables := tables_noteAll room started (Finset.Subset.refl (asked notes))
  refine ⟨fun place elapsed => given_eq_some_iff room (Finset.Subset.refl _), ?_, ?_,
    tables.requests.value⟩
  · exact fun peer kind asking sent first now one other k sent' second now' two => one.unique two
  · intro peer kind
    obtain ⟨f, maps, times⟩ := tables.responses
    have recorded_eq : s.recorded peer kind = (line notes peer kind).times := by
      rw [recorded, maps.value, times]
    rw [recorded_eq]
    exact ⟨count_line room (Finset.Subset.refl _) peer kind,
      Nat.le_trans (Nat.le_add_right _ _) (count_line_le notes peer kind)⟩

/-- Two peers share room for two, the clock goes back, and a response of another kind comes
between. -/
theorem responses_of_two_peers :
    let notes : List Note :=
      [.request "a" .status 5, .request "b" .status 6, .request "a" .status 9,
        .response "a" .bodies 10, .response "a" .status 7, .response "b" .status 8]
    (asked notes).card ≤ 2 ∧ (new 2 0).given notes 4 = some 0 ∧ (new 2 0).given notes 5 = some 2 ∧
      (((new 2 0).noteAll notes).recorded "a" .status).count ≤ 2 ∧
      ((new 2 0).noteAll notes).requestsOf? "a" = some ⟨2, 0, 0⟩ := by
  intro notes
  have room : (asked notes).card ≤ 2 := by decide
  obtain ⟨times, -, counts, requests⟩ := responses_of_notes 0 room
  have late : Answers notes "a" .status 2 9 4 7 := by
    refine ⟨rfl, rfl, by decide, fun place after earlier note found => ?_⟩
    obtain rfl : place = 3 := by omega
    cases found
    rfl
  have other : Answers notes "b" .status 1 6 5 8 := by
    refine ⟨rfl, rfl, by decide, fun place after earlier note found => ?_⟩
    obtain rfl | rfl | rfl : place = 2 ∨ place = 3 ∨ place = 4 := by omega
    all_goals
      cases found
      decide
  refine ⟨room, (times 4 0).2 ⟨_, _, _, _, _, late, rfl⟩, (times 5 2).2 ⟨_, _, _, _, _, other, rfl⟩,
    (counts "a" .status).2, ?_⟩
  rw [requests "a"]
  decide

end Statistics

end BlockSync
