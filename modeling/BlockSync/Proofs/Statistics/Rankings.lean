import BlockSync.Proofs.Recency
import BlockSync.Proofs.Statistics.Lines
import BlockSync.Proofs.Statistics.Notes
import Mathlib.Data.List.Perm.Subperm
import Mathlib.Data.String.Basic

/-! What the tables of the statistics show. The entries of a table stand in the order in which
they were last used, which the history decides. Its rows do not: by their counts and display ids
they are in one order only, and so the text of a table follows from the counts of the peers. It
has a line for each row, in this order. -/
namespace BlockSync.Statistics

variable {α : Type} {key : α → Nat} {counts : String → Option α} {n : Nat}
  {rows others : List (String × α)} {a b : String × α} {s : Statistics} {notes : List Note}

/-- One row stands ahead of another: it counts more, or as much with the smaller display id. -/
def Ahead (key : α → Nat) (a b : String × α) : Prop :=
  key b.2 < key a.2 ∨ key a.2 = key b.2 ∧ a.1 < b.1

theorem Ahead.asymm (ab : Ahead key a b) : ¬ Ahead key b a := by
  rintro (less | ⟨same, before⟩)
  · rcases ab with less' | ⟨same', -⟩
    · exact Nat.lt_asymm less less'
    · exact less.ne same'
  · rcases ab with less' | ⟨-, before'⟩
    · exact less'.ne same
    · exact lt_asymm before before'

/-- The peers that have a count. -/
def peers (counts : String → Option α) : Set String :=
  {peer | (counts peer).isSome}

/-- So many peers are listed with their counts, each once, and each ahead of those that follow it
and of those that are left out. -/
structure Listing (key : α → Nat) (counts : String → Option α) (n : Nat)
    (rows : List (String × α)) : Prop where
  counted : ∀ row ∈ rows, counts row.1 = some row.2
  once : (rows.map (·.1)).Nodup
  ordered : rows.Pairwise (Ahead key)
  size : rows.length = n
  left : ∀ peer a, counts peer = some a → peer ∉ rows.map (·.1) → ∀ row ∈ rows,
    Ahead key row (peer, a)

theorem Listing.mem_iff (h : Listing key counts n rows) (counted : counts a.1 = some a.2) :
    a ∈ rows ↔ a.1 ∈ rows.map (·.1) := by
  refine ⟨List.mem_map_of_mem, fun listed => ?_⟩
  obtain ⟨row, member, same⟩ := List.mem_map.1 listed
  have value := h.counted row member
  rw [same, counted, Option.some_inj] at value
  rwa [Prod.ext same value.symm] at member

/-- No row is in one listing alone: the other would hold a row in its place, and each of the two
would be ahead of the other. -/
theorem Listing.subset (h : Listing key counts n rows) (h' : Listing key counts n others) :
    rows ⊆ others := by
  intro row member
  by_contra absent
  have missing : row.1 ∉ others.map (·.1) :=
    fun listed => absent ((h'.mem_iff (h.counted row member)).2 listed)
  obtain ⟨other, member', apart⟩ : ∃ other ∈ others, other ∉ rows := by
    by_contra none
    push Not at none
    have part : others.Subperm rows := h'.once.of_map.subperm none
    have same := part.perm_of_length_le (h.size.trans h'.size.symm).le
    exact absent (same.mem_iff.2 member)
  have missing' : other.1 ∉ rows.map (·.1) :=
    fun listed => apart ((h.mem_iff (h'.counted other member')).2 listed)
  have one := h.left _ _ (h'.counted other member') missing' row member
  exact one.asymm (h'.left _ _ (h.counted row member) missing other member')

theorem Listing.unique (h : Listing key counts n rows) (h' : Listing key counts n others) :
    rows = others := by
  have same : rows.Perm others :=
    (h.once.of_map.subperm (h.subset h')).antisymm (h'.once.of_map.subperm (h'.subset h))
  exact same.eq_of_pairwise (fun _ _ _ _ ab ba => absurd ba ab.asymm) h.ordered h'.ordered

theorem ranked_perm (key : α → Nat) (rows : List (String × α)) : (ranked key rows).Perm rows :=
  List.mergeSort_perm rows _

theorem pairwise_ranked (key : α → Nat) (rows : List (String × α))
    (once : (rows.map (·.1)).Nodup) : (ranked key rows).Pairwise (Ahead key) := by
  have sorted : (ranked key rows).Pairwise fun a b =>
      (decide (key b.2 < key a.2) || (key a.2 == key b.2 && decide (a.1 ≤ b.1))) = true := by
    refine List.pairwise_mergeSort ?_ ?_ rows
    · simp only [Bool.or_eq_true, Bool.and_eq_true, beq_iff_eq, decide_eq_true_eq]
      rintro a b c (less | ⟨same, before⟩) (less' | ⟨same', before'⟩)
      · exact .inl (less'.trans less)
      · exact .inl (same' ▸ less)
      · exact .inl (same ▸ less')
      · exact .inr ⟨same.trans same', before.trans before'⟩
    · simp only [Bool.or_eq_true, Bool.and_eq_true, beq_iff_eq, decide_eq_true_eq]
      intro a b
      rcases Nat.lt_trichotomy (key a.2) (key b.2) with less | same | less
      · exact .inr (.inl less)
      · exact (le_total a.1 b.1).imp (fun before => .inr ⟨same, before⟩)
          fun before => .inr ⟨same.symm, before⟩
      · exact .inl (.inl less)
  have apart : (ranked key rows).Pairwise fun a b => a.1 ≠ b.1 :=
    List.pairwise_map.1 (((ranked_perm key rows).map _).nodup_iff.2 once)
  refine (sorted.and apart).imp fun {a b} ⟨before, apart⟩ => ?_
  simp only [Bool.or_eq_true, Bool.and_eq_true, beq_iff_eq, decide_eq_true_eq] at before
  exact before.imp_right fun ⟨same, before⟩ => ⟨same, lt_of_le_of_ne before apart⟩

theorem listing_take (key : α → Nat) {table : Recency String α} (distinct : table.Distinct)
    (limit : Nat) :
    Listing key table.peek? (min limit (peers table.peek?).ncard)
      ((ranked key table.entries).take limit) := by
  have perm := ranked_perm key table.entries
  have part := List.take_sublist limit (ranked key table.entries)
  have ordered := pairwise_ranked key table.entries distinct
  refine ⟨?_, ?_, ordered.sublist part, ?_, ?_⟩
  · intro row listed
    exact distinct.peek?_eq_some_iff.2 (perm.mem_iff.1 (part.subset listed))
  · exact ((perm.map _).nodup_iff.2 distinct).sublist (part.map _)
  · rw [List.length_take, perm.length_eq, peers, ← distinct.size_eq]
    rfl
  · intro peer a counted missing row listed
    have member := perm.mem_iff.2 (distinct.peek?_eq_some_iff.1 counted)
    rw [← List.take_append_drop limit (ranked key table.entries)] at member ordered
    rcases List.mem_append.1 member with front | back
    · exact absurd (List.mem_map_of_mem front) missing
    · exact (List.pairwise_append.1 ordered).2.2 row listed _ back

/-- The tables by peer name each peer once. -/
structure Filed (s : Statistics) : Prop where
  requests : s.requests.Distinct
  blocks : s.blocks.Distinct
  served : s.served.Distinct

theorem filed_new (capacity : Nat) (started : Instant) : Filed (new capacity started) :=
  ⟨List.nodup_nil, List.nodup_nil, List.nodup_nil⟩

theorem Filed.note (h : Filed s) (n : Note) : Filed (s.note n) := by
  cases n with
  | imported n => exact ⟨h.requests, h.blocks, h.served⟩
  | request peer kind now => exact ⟨h.requests.insert _ _, h.blocks, h.served⟩
  | response peer kind now =>
    rw [Statistics.note, recordResponse]
    split <;> exact ⟨h.requests, h.blocks, h.served⟩
  | blocks peer outcome n =>
    rw [Statistics.note, recordBlocks]
    split
    · exact h
    · exact ⟨h.requests, h.blocks.insert _ _, h.served⟩
  | served peer n =>
    rw [Statistics.note, recordServed]
    split
    · exact h
    · exact ⟨h.requests, h.blocks, h.served.insert _ _⟩

theorem Filed.noteAll (h : Filed s) (notes : List Note) : Filed (s.noteAll notes) := by
  induction notes generalizing s with
  | nil => exact h
  | cons n notes ih => exact ih (h.note n)

theorem filed_of_notes (capacity : Nat) (started : Instant) (notes : List Note) :
    Filed ((new capacity started).noteAll notes) :=
  (filed_new capacity started).noteAll notes

theorem total_modify (p : PerKind Nat) (kind : RequestKind) :
    (p.modify kind (· + 1)).total = p.total + 1 := by
  cases kind <;> simp only [PerKind.modify, PerKind.total] <;> omega

/-- The counts of a peer's requests take a note each, so they are too low to wrap around. -/
theorem total_note_le (within : ∀ entry ∈ s.requests.entries, entry.2.total ≤ n) (next : Note) :
    ∀ entry ∈ (s.note next).requests.entries, entry.2.total ≤ n + 1 := by
  have before : ∀ entry ∈ s.requests.entries, entry.2.total ≤ n + 1 :=
    fun entry listed => Nat.le_succ_of_le (within entry listed)
  cases next with
  | imported => exact before
  | request peer kind now =>
    intro entry listed
    rcases Recency.mem_of_mem_insert listed with rfl | old
    · rw [total_modify]
      refine Nat.succ_le_succ ?_
      cases found : s.requests.peek? peer with
      | none => exact Nat.zero_le n
      | some counts => exact within _ (Recency.mem_of_peek? found)
    · exact before entry old
  | response peer kind now =>
    rw [Statistics.note, recordResponse]
    split <;> exact before
  | blocks peer outcome count =>
    rw [Statistics.note, recordBlocks]
    split <;> exact before
  | served peer count =>
    rw [Statistics.note, recordServed]
    split <;> exact before

theorem total_le_length (capacity : Nat) (started : Instant) (notes : List Note) :
    ∀ entry ∈ ((new capacity started).noteAll notes).requests.entries,
      entry.2.total ≤ notes.length := by
  induction notes using List.reverseRecOn with
  | nil => exact fun _ listed => absurd listed List.not_mem_nil
  | append_singleton notes next ih =>
    rw [noteAll_append, noteAll_singleton, List.length_append]
    exact total_note_le ih next

theorem Filed.requestReport (h : Filed s) : ∃ rows,
    s.requestReport =
      table "sync-requests" 8 ["total", "status", "headers", "bodies"] requestCells rows ∧
    Listing PerKind.total s.requestsOf? (peers s.requestsOf?).ncard rows ∧
    ∀ peer, peer ∈ rows.map (·.1) ↔ peer ∈ peers s.requestsOf? := by
  have perm := ranked_perm PerKind.total s.requests.entries
  have size : s.requests.entries.length = (peers s.requestsOf?).ncard := h.requests.size_eq
  have listing := listing_take PerKind.total h.requests s.requests.entries.length
  rw [List.take_of_length_le perm.length_eq.le, size] at listing
  refine ⟨_, rfl, ?_, fun peer => ?_⟩
  · exact Nat.min_self (peers s.requestsOf?).ncard ▸ listing
  · rw [(perm.map _).mem_iff]
    exact h.requests.mem_keys_iff

theorem Filed.seedReport (h : Filed s) : ∃ rows,
    s.seedReport = table "sync-top-seeds" 10 ["imported", "stored", "ignored"] blockCells rows ∧
    Listing (·.imported.toNat) s.blocksOf? (min topPeers (peers s.blocksOf?).ncard) rows :=
  ⟨_, rfl, listing_take _ h.blocks topPeers⟩

theorem Filed.leechReport (h : Filed s) : ∃ rows,
    s.leechReport =
      table "sync-top-leeches" 10 ["served"] (fun served => [toString served]) rows ∧
    Listing UInt64.toNat s.served.peek? (min topPeers (peers s.served.peek?).ncard) rows :=
  ⟨_, rfl, listing_take _ h.served topPeers⟩

/-- After any notes, all peers that were asked are listed by the requests to them, and the ten
that come first by the blocks that they gave or were served. Each has a line with its id and its
counts, in the order of the list. After any two histories by which the peers have the same counts
the texts are the same. -/
theorem reports_of_notes (capacity : Nat) (started : Instant) (notes : List Note) :
    let s := (new capacity started).noteAll notes
    (∃ rows, Prints "sync-requests" ["total", "status", "headers", "bodies"]
        (fun counts => [toString counts.total, toString counts.status, toString counts.headers,
          toString counts.bodies]) rows s.requestReport ∧
      Listing PerKind.total s.requestsOf? (peers s.requestsOf?).ncard rows ∧
      (∀ peer, peer ∈ rows.map (·.1) ↔ peer ∈ peers s.requestsOf?) ∧
      ∀ row ∈ rows, row.2.total ≤ notes.length) ∧
    (∃ rows, Prints "sync-top-seeds" ["imported", "stored", "ignored"]
        (fun counts => [toString counts.imported, toString counts.stored, toString counts.ignored])
        rows s.seedReport ∧
      Listing (·.imported.toNat) s.blocksOf? (min 10 (peers s.blocksOf?).ncard) rows) ∧
    (∃ rows, Prints "sync-top-leeches" ["served"] (fun served => [toString served]) rows
        s.leechReport ∧
      Listing UInt64.toNat s.served.peek? (min 10 (peers s.served.peek?).ncard) rows) ∧
    ∀ room began others,
      let t := (new room began).noteAll others
      ((∀ peer, s.requestsOf? peer = t.requestsOf? peer) → s.requestReport = t.requestReport) ∧
      ((∀ peer, s.blocksOf? peer = t.blocksOf? peer) → s.seedReport = t.seedReport) ∧
      ((∀ peer, s.served.peek? peer = t.served.peek? peer) → s.leechReport = t.leechReport) := by
  intro s
  have filed : Filed s := filed_of_notes capacity started notes
  refine ⟨?_, ?_, ?_, fun room began others => ?_⟩
  · obtain ⟨rows, text, listing, all⟩ := filed.requestReport
    refine ⟨rows, ?_, listing, all, ?_⟩
    · rw [text]
      exact prints_table _ 8 rows (by simp [Word, Char.isWhitespace]) fun counts =>
        words_of_numbers [counts.total, counts.status, counts.headers, counts.bodies]
    · exact fun row listed => total_le_length capacity started notes row
        (Recency.mem_of_peek? (listing.counted row listed))
  · obtain ⟨rows, text, listing⟩ := filed.seedReport
    refine ⟨rows, ?_, listing⟩
    rw [text]
    exact prints_table _ 10 rows (by simp [Word, Char.isWhitespace]) fun counts =>
      words_of_numbers [counts.imported.toNat, counts.stored.toNat, counts.ignored.toNat]
  · obtain ⟨rows, text, listing⟩ := filed.leechReport
    refine ⟨rows, ?_, listing⟩
    rw [text]
    exact prints_table _ 10 rows (by simp [Word, Char.isWhitespace]) fun served => words_of_numbers [served.toNat]
  intro t
  have filed' : Filed t := filed_of_notes room began others
  refine ⟨fun same => ?_, fun same => ?_, fun same => ?_⟩
  · obtain ⟨rows, text, listing, -⟩ := filed.requestReport
    obtain ⟨rows', text', listing', -⟩ := filed'.requestReport
    rw [← funext same] at listing'
    rw [text, text', listing.unique listing']
  · obtain ⟨rows, text, listing⟩ := filed.seedReport
    obtain ⟨rows', text', listing'⟩ := filed'.seedReport
    rw [← funext same] at listing'
    rw [text, text', listing.unique listing']
  · obtain ⟨rows, text, listing⟩ := filed.leechReport
    obtain ⟨rows', text', listing'⟩ := filed'.leechReport
    rw [← funext same] at listing'
    rw [text, text', listing.unique listing']

/-- Two peers that were asked and served as often, in either order. -/
theorem reports_of_two_orders :
    let s := (new 2 0).noteAll [.request "a" .status 5, .request "b" .bodies 6, .served "a" 3,
      .served "b" 3]
    let t := (new 2 0).noteAll [.served "b" 2, .request "b" .bodies 1, .served "a" 3,
      .served "b" 1, .request "a" .status 9]
    s.requests.entries ≠ t.requests.entries ∧ s.requestReport = t.requestReport ∧
      s.leechReport = t.leechReport := by
  intro s t
  have report := (reports_of_notes 2 0 [.request "a" .status 5, .request "b" .bodies 6,
    .served "a" 3, .served "b" 3]).2.2.2 2 0 [.served "b" 2, .request "b" .bodies 1,
    .served "a" 3, .served "b" 1, .request "a" .status 9]
  have one : Filed s := filed_of_notes 2 0 _
  have two : Filed t := filed_of_notes 2 0 _
  refine ⟨by decide, report.1 ?_, report.2.2 ?_⟩
  · exact one.requests.peek?_of_perm two.requests (by decide)
  · exact one.served.peek?_of_perm two.served (by decide)

end BlockSync.Statistics
