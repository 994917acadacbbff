import BlockSync.Proofs.Recency.Uses

/-! Everything that is done to a table of bounded size, in any order. The entries stand in the
order of the last uses of their keys, and each has the value that was written to its key last.
An entry goes when it is taken out, or when a new key comes to a full table and its own key is
the one whose last use is longest ago. -/
namespace BlockSync.Recency

variable {κ α : Type} [DecidableEq κ] {c d : Recency κ α} {key other : κ} {value : α}
  {entry : κ × α} {log : List κ}

/-- What is done to a table. To peek, to test for a key and to list the entries is to look. -/
inductive Operation (κ α : Type) where
  | get (key : κ)
  | modify (key : κ) (f : α → α)
  | put (key : κ) (value : α)
  | upsert (key : κ) (default : α) (f : α → α)
  | erase (key : κ)
  | retain (keep : κ → α → Bool)
  | clear
  | look

variable {operation : Operation κ α}

namespace Operation

/-- The key that is used, if it is in the table in the end. -/
def target : Operation κ α → Option κ
  | get key | modify key _ | put key _ | upsert key _ _ => some key
  | erase _ | retain _ | clear | look => none

/-- Whether it takes entries out. -/
def removes : Operation κ α → Bool
  | erase _ | retain _ | clear => true
  | get _ | modify _ _ | put _ _ | upsert _ _ _ | look => false

end Operation

def perform (c : Recency κ α) : Operation κ α → Recency κ α
  | .get key => (c.get? key).2
  | .modify key f => c.modify key f
  | .put key value => (c.put key value).2
  | .upsert key default f => c.upsert key default f
  | .erase key => (c.erase key).2
  | .retain keep => c.retain keep
  | .clear => c.clear
  | .look => c

def performAll (c : Recency κ α) (operations : List (Operation κ α)) : Recency κ α :=
  operations.foldl perform c

/-- The key that an operation uses. -/
def used (c : Recency κ α) (operation : Operation κ α) : Option κ :=
  operation.target.filter fun key => (c.perform operation).contains key

/-- The keys that were used, the last one first. -/
def uses (c : Recency κ α) : List (Operation κ α) → List κ
  | [] => []
  | operation :: rest => uses (c.perform operation) rest ++ (c.used operation).toList

/-- The key and the value that an operation writes. -/
def written (c : Recency κ α) : Operation κ α → Option (κ × α)
  | .put key value => some (key, value)
  | .upsert key default f => some (key, f ((c.peek? key).getD default))
  | .modify key f => (c.peek? key).map fun value => (key, f value)
  | .get _ | .erase _ | .retain _ | .clear | .look => none

/-- The operations leave a key in the table and write nothing to it. -/
def Keeps (c : Recency κ α) (key : κ) : List (Operation κ α) → Prop
  | [] => True
  | operation :: rest =>
    (∀ value, c.written operation ≠ some (key, value)) ∧
      (c.perform operation).contains key = true ∧ (c.perform operation).Keeps key rest

/-- The value was written to the key, which has been in the table since then and was given
no other. -/
def LastWritten (c : Recency κ α) (operations : List (Operation κ α)) (key : κ) (value : α) :
    Prop :=
  ∃ front operation back, operations = front ++ operation :: back ∧
    (c.performAll front).written operation = some (key, value) ∧
    (c.performAll (front ++ [operation])).Keeps key back

/-- The entry goes: it is taken out, or it makes room for a new key, and no key of the table
was used last before its own. -/
def Expels (c : Recency κ α) (log : List κ) (entry : κ × α) : Operation κ α → Prop
  | .erase key => entry.1 = key
  | .retain keep => keep entry.1 entry.2 = false
  | .clear => True
  | .put key _ | .upsert key _ _ => key ∉ c.keys ∧ c.size = c.capacity ∧
      ∀ other ∈ c.keys, log.idxOf other ≤ log.idxOf entry.1
  | .get _ | .modify _ _ | .look => False

/-- Puts an entry in front, and gives the one that goes, be it the former entry of the key or
the last one of a full table. -/
def push (c : Recency κ α) (key : κ) (value : α) : Option (κ × α) × Recency κ α :=
  match c.peek? key with
  | some former => (some (key, former), { c with entries := (key, value) :: c.others key })
  | none =>
    if c.size < c.capacity then (none, { c with entries := (key, value) :: c.entries })
    else (c.entries.getLast?, { c with entries := (key, value) :: c.entries.dropLast })

theorem contains_eq_isSome (c : Recency κ α) (key : κ) :
    c.contains key = (c.peek? key).isSome := by
  rw [Bool.eq_iff_iff, contains, peek?, Option.isSome_map, List.find?_isSome, List.any_eq_true]

theorem exists_peek? (held : c.contains key = true) : ∃ value, c.peek? key = some value := by
  rwa [contains_eq_isSome, Option.isSome_iff_exists] at held

theorem contains_of_peek? (found : c.peek? key = some value) : c.contains key = true := by
  rw [contains_eq_isSome, found]
  rfl

theorem modify_of_some (found : c.peek? key = some value) (f : α → α) :
    c.modify key f = c.insert key (f value) := by
  rw [modify, found, insert, put, if_pos (contains_of_peek? found)]

/-- To use a key is to put it in front, with the value that is written or with the one that
it has. -/
theorem perform_of_used (used : c.used operation = some key) :
    ∃ value, c.perform operation = c.insert key value ∧
      (c.written operation = some (key, value) ∨
        c.written operation = none ∧ c.peek? key = some value) := by
  obtain ⟨target, present⟩ := Option.filter_eq_some_iff.1 used
  cases operation with
  | get first =>
    cases target
    cases found : c.peek? key with
    | some value => exact ⟨value, get?_snd_of_some found, .inr ⟨rfl, rfl⟩⟩
    | none =>
      rw [perform, get?, found, contains_eq_isSome, found] at present
      cases present
  | modify first f =>
    cases target
    cases found : c.peek? key with
    | some value => exact ⟨f value, modify_of_some found f, .inl (by rw [written, found]; rfl)⟩
    | none =>
      rw [perform, modify, found, contains_eq_isSome, found] at present
      cases present
  | put first value =>
    cases target
    exact ⟨value, rfl, .inl rfl⟩
  | upsert first default f =>
    cases target
    exact ⟨_, rfl, .inl rfl⟩
  | erase | retain | clear | look => cases target

/-- A key of an operation that uses none is not in the table afterwards. -/
theorem absent_of_unused (unused : c.used operation = none) (target : operation.target = some key) :
    (c.perform operation).contains key = false := by
  rw [used, target, Option.filter_some, ite_eq_right_iff] at unused
  exact Bool.eq_false_iff.2 fun present => nomatch unused present

/-- What uses no key writes nothing. It does nothing, or it takes entries out. -/
theorem perform_of_unused (unused : c.used operation = none) :
    c.written operation = none ∧ (c.perform operation = c ∨ operation.removes = true) := by
  cases operation with
  | get key =>
    have gone := absent_of_unused unused rfl
    rw [perform, get?] at gone ⊢
    split at gone
    · simp [contains] at gone
    · exact ⟨rfl, .inl rfl⟩
  | modify key f =>
    have gone := absent_of_unused unused rfl
    rw [perform, modify] at gone ⊢
    split at gone
    · simp [contains] at gone
    · rename_i absent
      exact ⟨by rw [written, absent]; rfl, .inl rfl⟩
  | put key value =>
    have present := contains_insert_self c key value
    exact absurd present (Bool.eq_false_iff.1 (absent_of_unused unused rfl))
  | upsert key default f =>
    have present := contains_insert_self c key (f ((c.peek? key).getD default))
    exact absurd present (Bool.eq_false_iff.1 (absent_of_unused unused rfl))
  | erase | retain | clear => exact ⟨rfl, .inr rfl⟩
  | look => exact ⟨rfl, .inl rfl⟩

/-- What uses no key keeps the order of the entries that it leaves. -/
theorem sublist_of_unused (unused : c.used operation = none) :
    (c.perform operation).entries.Sublist c.entries := by
  rcases (perform_of_unused unused).2 with same | removes
  · rw [same]
  · cases operation with
    | erase | retain => exact List.filter_sublist
    | clear => exact List.nil_sublist _
    | get | modify | put | upsert | look => cases removes

theorem capacity_perform (c : Recency κ α) (operation : Operation κ α) :
    (c.perform operation).capacity = c.capacity := by
  cases operation with
  | get key =>
    rw [perform, get?]
    split <;> rfl
  | modify key f =>
    rw [perform, modify]
    split <;> rfl
  | put key value => exact capacity_insert c key value
  | upsert key default f => exact capacity_insert c key _
  | erase | retain | clear | look => rfl

theorem capacity_performAll (c : Recency κ α) (operations : List (Operation κ α)) :
    (c.performAll operations).capacity = c.capacity := by
  induction operations generalizing c with
  | nil => rfl
  | cons operation rest ih => exact (ih _).trans (capacity_perform c operation)

theorem performAll_append (c : Recency κ α) (operations more : List (Operation κ α)) :
    c.performAll (operations ++ more) = (c.performAll operations).performAll more :=
  List.foldl_append

theorem performAll_concat (c : Recency κ α) (operations : List (Operation κ α))
    (operation : Operation κ α) :
    c.performAll (operations ++ [operation]) = (c.performAll operations).perform operation :=
  performAll_append c operations [operation]

/-- The entries of a table of bounded size, in the order of a log of uses. -/
structure Ranked (c : Recency κ α) (log : List κ) : Prop where
  room : 0 < c.capacity
  inside : c.size ≤ c.capacity
  distinct : c.Distinct
  logged : ∀ key ∈ c.keys, key ∈ log
  order : c.keys.Pairwise fun key other => log.idxOf key < log.idxOf other

theorem ranked_new (capacity : Nat) : (Recency.new capacity : Recency κ α).Ranked [] where
  room := Nat.le_max_left 1 capacity
  inside := Nat.zero_le _
  distinct := List.nodup_nil
  logged _ listed := nomatch listed
  order := .nil

omit [DecidableEq κ] in
theorem length_keys (c : Recency κ α) : c.keys.length = c.size :=
  List.length_map _

theorem Ranked.insert (h : c.Ranked log) (key : κ) (value : α) :
    (c.insert key value).Ranked (key :: log) := by
  have keys := keys_insert h.inside h.room key value
  have part : (c.insert key value).keys.Sublist (key :: c.keys.filter (· ≠ key)) := by
    rw [keys]
    exact List.take_sublist _ _
  refine ⟨?_, ?_, h.distinct.insert key value, ?_, ?_⟩
  · rw [capacity_insert]
    exact h.room
  · rw [← length_keys, keys, capacity_insert, List.length_take]
    exact Nat.min_le_left _ _
  · intro other listed
    rcases List.mem_cons.1 (part.subset listed) with rfl | old
    · exact List.mem_cons_self
    · exact List.mem_cons_of_mem _ (h.logged other (List.mem_filter.1 old).1)
  · have later : ∀ other ∈ c.keys.filter (· ≠ key),
        (key :: log).idxOf other = log.idxOf other + 1 := by
      intro other listed
      have apart : other ≠ key := by simpa using (List.mem_filter.1 listed).2
      exact List.idxOf_cons_ne _ apart.symm
    refine List.Pairwise.sublist part (List.pairwise_cons.2 ⟨?_, ?_⟩)
    · intro other listed
      rw [List.idxOf_cons_self, later other listed]
      exact Nat.succ_pos _
    · refine (h.order.sublist List.filter_sublist).imp_of_mem ?_
      intro first second one two before
      rw [later first one, later second two]
      exact Nat.succ_lt_succ before

theorem Ranked.sublist (h : c.Ranked log) (capacity : d.capacity = c.capacity)
    (part : d.entries.Sublist c.entries) : d.Ranked log := by
  have keys : d.keys.Sublist c.keys := part.map _
  refine ⟨capacity ▸ h.room, ?_, h.distinct.of_sublist part, ?_, h.order.sublist keys⟩
  · rw [capacity]
    exact Nat.le_trans part.length_le h.inside
  · intro key listed
    exact h.logged key (keys.subset listed)

theorem Ranked.perform (h : c.Ranked log) (operation : Operation κ α) :
    (c.perform operation).Ranked ((c.used operation).toList ++ log) := by
  cases used : c.used operation with
  | none => exact h.sublist (capacity_perform c operation) (sublist_of_unused used)
  | some key =>
    obtain ⟨value, performed, -⟩ := perform_of_used used
    rw [performed]
    exact h.insert key value

theorem Ranked.performAll (h : c.Ranked log) (operations : List (Operation κ α)) :
    (c.performAll operations).Ranked (c.uses operations ++ log) := by
  induction operations generalizing c log with
  | nil => exact h
  | cons operation rest ih =>
    rw [uses, List.append_assoc]
    exact ih (h.perform operation)

/-- Without removals the keys are the last ones that were used. -/
theorem Logged.performAll (h : c.Logged log) (operations : List (Operation κ α))
    (kept : ∀ operation ∈ operations, operation.removes = false) :
    (c.performAll operations).Logged (c.uses operations ++ log) := by
  induction operations generalizing c log with
  | nil => exact h
  | cons operation rest ih =>
    have first := kept operation List.mem_cons_self
    rw [uses, List.append_assoc]
    refine ih ?_ fun next listed => kept next (List.mem_cons_of_mem _ listed)
    cases used : c.used operation with
    | none =>
      rw [(perform_of_unused used).2.resolve_right (Bool.eq_false_iff.1 first)]
      exact h
    | some key =>
      obtain ⟨value, performed, -⟩ := perform_of_used used
      rw [performed]
      exact h.insert key value

/-- The entries of a part have the values that they had in the whole. -/
theorem Distinct.peek?_of_sublist (h : c.Distinct) (part : d.entries.Sublist c.entries) :
    d.peek? key = some value ↔ d.contains key = true ∧ c.peek? key = some value := by
  have same {value : α} (found : d.peek? key = some value) : c.peek? key = some value :=
    h.peek?_eq_some_iff.2 (part.subset (mem_of_peek? found))
  constructor
  · intro found
    exact ⟨contains_of_peek? found, same found⟩
  · rintro ⟨present, held⟩
    obtain ⟨other, found⟩ := exists_peek? present
    rw [found, ← same found, held]

theorem peek?_insert_of_apart (value : α) (apart : key ≠ other) {former : α} :
    (c.insert key value).peek? other = some former ↔
      (c.insert key value).contains other = true ∧ c.peek? other = some former := by
  rcases peek?_insert_of_ne (c := c) value apart with same | gone
  · rw [same, contains_eq_isSome, same]
    exact ⟨fun found => ⟨by rw [found]; rfl, found⟩, And.right⟩
  · rw [contains_eq_isSome, gone]
    simp

/-- A key has the value that an operation writes to it, or keeps the one that it had. -/
theorem Ranked.peek?_perform (h : c.Ranked log) (operation : Operation κ α) :
    (c.perform operation).peek? key = some value ↔
      c.written operation = some (key, value) ∨
        (∀ other, c.written operation ≠ some (key, other)) ∧
          (c.perform operation).contains key = true ∧ c.peek? key = some value := by
  cases used : c.used operation with
  | none =>
    rw [h.distinct.peek?_of_sublist (sublist_of_unused used), (perform_of_unused used).1]
    simp
  | some first =>
    obtain ⟨new, performed, writes⟩ := perform_of_used used
    rw [performed]
    by_cases same : first = key
    · subst same
      rw [peek?_insert_self, contains_insert_self]
      rcases writes with writes | ⟨unwritten, held⟩
      · simp [writes]
      · simp [unwritten, held]
    · rw [peek?_insert_of_apart new same]
      rcases writes with writes | ⟨unwritten, -⟩
      · simp [writes, same]
      · simp [unwritten]

theorem Ranked.peek?_of_keeps {operations : List (Operation κ α)} (h : c.Ranked log)
    (keeps : c.Keeps key operations) (held : c.peek? key = some value) :
    (c.performAll operations).peek? key = some value := by
  induction operations generalizing c log with
  | nil => exact held
  | cons operation rest ih =>
    obtain ⟨unwritten, present, keeps⟩ := keeps
    exact ih (h.perform operation) keeps
      ((h.peek?_perform operation).2 (.inr ⟨unwritten, present, held⟩))

/-- The value of a key is the one that was written last, unless it has been there all along. -/
theorem Ranked.peek?_performAll (h : c.Ranked log) (operations : List (Operation κ α)) :
    (c.performAll operations).peek? key = some value ↔
      c.LastWritten operations key value ∨ c.Keeps key operations ∧ c.peek? key = some value := by
  constructor
  · induction operations generalizing c log with
    | nil => exact fun held => .inr ⟨trivial, held⟩
    | cons operation rest ih =>
      intro held
      rcases ih (h.perform operation) held with ⟨front, last, back, rfl, writes, keeps⟩ | ⟨keeps, held⟩
      · exact .inl ⟨operation :: front, last, back, rfl, writes, keeps⟩
      · rcases (h.peek?_perform operation).1 held with writes | ⟨unwritten, present, held⟩
        · exact .inl ⟨[], operation, rest, rfl, writes, keeps⟩
        · exact .inr ⟨⟨unwritten, present, keeps⟩, held⟩
  · rintro (⟨front, last, back, rfl, writes, keeps⟩ | ⟨keeps, held⟩)
    · rw [List.append_cons, performAll_append]
      refine (h.performAll (front ++ [last])).peek?_of_keeps keeps ?_
      rw [performAll_concat]
      exact ((h.performAll front).peek?_perform last).2 (.inl writes)
    · exact h.peek?_of_keeps keeps held

omit [DecidableEq κ] in
theorem mem_keys (listed : entry ∈ c.entries) : entry.1 ∈ c.keys :=
  List.mem_map_of_mem listed

/-- The last entry is the one whose key was not used for longest. -/
theorem Ranked.getLast?_iff (h : c.Ranked log) :
    c.entries.getLast? = some entry ↔
      entry ∈ c.entries ∧ ∀ other ∈ c.keys, log.idxOf other ≤ log.idxOf entry.1 := by
  rcases List.eq_nil_or_concat' c.entries with empty | ⟨front, last, split⟩
  · simp [empty]
  · have keys : c.keys = front.map (·.1) ++ [last.1] := by
      rw [Recency.keys, split, List.map_append]
      rfl
    have before : ∀ other ∈ front.map (·.1), log.idxOf other < log.idxOf last.1 := by
      have order := h.order
      rw [keys, List.pairwise_append] at order
      exact fun other listed => order.2.2 other listed last.1 (List.mem_singleton.2 rfl)
    rw [split, List.getLast?_concat, Option.some_inj]
    constructor
    · rintro rfl
      refine ⟨List.mem_append_right _ (List.mem_singleton.2 rfl), fun other listed => ?_⟩
      rw [keys] at listed
      rcases List.mem_append.1 listed with early | final
      · exact Nat.le_of_lt (before other early)
      · rw [List.mem_singleton.1 final]
    · rintro ⟨listed, latest⟩
      rcases List.mem_append.1 listed with early | final
      · have less := before entry.1 (List.mem_map_of_mem early)
        have most := latest last.1 (keys ▸ List.mem_append_right _ (List.mem_singleton.2 rfl))
        exact absurd most (Nat.not_le_of_lt less)
      · exact (List.mem_singleton.1 final).symm

omit [DecidableEq κ] in
theorem mem_dropLast_or {entries : List (κ × α)} (listed : entry ∈ entries) :
    entry ∈ entries.dropLast ∨ entries.getLast? = some entry := by
  rcases List.eq_nil_or_concat' entries with rfl | ⟨front, last, rfl⟩
  · cases listed
  · rw [List.dropLast_concat, List.getLast?_concat, Option.some_inj]
    rcases List.mem_append.1 listed with early | final
    · exact .inl early
    · exact .inr (List.mem_singleton.1 final).symm

omit [DecidableEq κ] in
/-- The key of the last entry stands nowhere else. -/
theorem Distinct.getLast?_apart (h : c.Distinct) (last : c.entries.getLast? = some entry) :
    entry.1 ∉ c.entries.dropLast.map (·.1) := by
  obtain ⟨front, split⟩ := List.getLast?_eq_some_iff.1 last
  have distinct := h
  rw [Distinct, split, List.map_append, List.nodup_append] at distinct
  rw [split, List.dropLast_concat]
  exact fun listed => distinct.2.2 _ listed _ (List.mem_singleton.2 rfl) rfl

/-- An insertion costs an entry its place if the key is new, the table is full and the entry is
the last one. -/
theorem Ranked.lost_insert_iff (h : c.Ranked log) (listed : entry ∈ c.entries) (key : κ)
    (value : α) :
    entry.1 ∉ (c.insert key value).keys ↔
      key ∉ c.keys ∧ c.size = c.capacity ∧ c.entries.getLast? = some entry := by
  have member := mem_keys listed
  unfold Recency.insert put
  split
  · rename_i held
    have present := contains_iff.1 held
    refine iff_of_false ?_ fun new => new.1 present
    rw [keys, List.map_cons, keys_others, not_not, List.mem_cons, List.mem_filter]
    by_cases same : entry.1 = key
    · exact .inl same
    · exact .inr ⟨member, decide_eq_true same⟩
  · rename_i absent
    have fresh : key ∉ c.keys := not_contains_iff.1 (Bool.eq_false_iff.2 absent)
    split
    · rename_i room
      refine iff_of_false (fun lost => lost (List.mem_cons_of_mem _ member)) fun full => ?_
      exact Nat.ne_of_lt room full.2.1
    · rename_i full
      have apart : entry.1 ≠ key := fun same => fresh (same ▸ member)
      rw [keys, List.map_cons, List.mem_cons, not_or]
      constructor
      · rintro ⟨-, lost⟩
        refine ⟨fresh, Nat.le_antisymm h.inside (Nat.le_of_not_lt full), ?_⟩
        exact (mem_dropLast_or listed).resolve_left fun early => lost (List.mem_map_of_mem early)
      · exact fun last => ⟨apart, h.distinct.getLast?_apart last.2.2⟩

/-- An insertion gives the entry that it costs its place. -/
theorem Ranked.put_eq_some_iff (h : c.Ranked log) (key : κ) (value : α) :
    (c.put key value).1 = some entry ↔
      key ∉ c.keys ∧ c.size = c.capacity ∧ c.entries.getLast? = some entry := by
  unfold put
  split
  · rename_i held
    exact iff_of_false (fun gone => Option.some_ne_none entry gone.symm) fun new => new.1 (contains_iff.1 held)
  · rename_i absent
    have fresh : key ∉ c.keys := not_contains_iff.1 (Bool.eq_false_iff.2 absent)
    split
    · rename_i room
      exact iff_of_false (fun gone => Option.some_ne_none entry gone.symm) fun new => Nat.ne_of_lt room new.2.1
    · rename_i full
      exact ⟨fun gone => ⟨fresh, Nat.le_antisymm h.inside (Nat.le_of_not_lt full), gone⟩,
        fun new => new.2.2⟩

/-- Of what a push gives, an insertion leaves out the former entry of the key: its key is
still there. -/
theorem Distinct.put_eq (h : c.Distinct) (key : κ) (value : α) :
    c.put key value =
      let (gone, d) := c.push key value
      (gone.filter fun entry => !d.contains entry.1, d) := by
  unfold put push
  cases found : c.peek? key with
  | some former =>
    rw [if_pos (contains_of_peek? found)]
    simp [contains, Option.filter_some]
  | none =>
    have absent : ¬ c.contains key = true := by simp [contains_eq_isSome, found]
    have fresh : key ∉ c.keys := not_contains_iff.1 (Bool.eq_false_iff.2 absent)
    rw [if_neg absent]
    split
    · rfl
    · cases last : c.entries.getLast? with
      | none => rfl
      | some entry =>
        have apart : key ≠ entry.1 := by
          rintro rfl
          exact fresh (mem_keys (List.mem_of_getLast? last))
        have gone := h.getLast?_apart last
        have lost : Recency.contains
            { c with entries := (key, value) :: c.entries.dropLast } entry.1 = false := by
          rw [not_contains_iff, List.map_cons, List.mem_cons, not_or]
          exact ⟨apart.symm, gone⟩
        simp [Option.filter_some, lost]

/-- An entry goes if the operation expels it, and for no other reason. -/
theorem Ranked.lost_iff (h : c.Ranked log) (listed : entry ∈ c.entries)
    (operation : Operation κ α) :
    entry.1 ∉ (c.perform operation).keys ↔ c.Expels log entry operation := by
  have member := mem_keys listed
  have inserted (key : κ) (value : α) : entry.1 ∉ (c.insert key value).keys ↔
      key ∉ c.keys ∧ c.size = c.capacity ∧
        ∀ other ∈ c.keys, log.idxOf other ≤ log.idxOf entry.1 := by
    rw [h.lost_insert_iff listed, h.getLast?_iff, and_iff_right listed]
  have kept {key : κ} {value : α} (new : α) (found : c.peek? key = some value) :
      entry.1 ∈ (c.insert key new).keys := by
    by_contra lost
    exact ((inserted key new).1 lost).1 (contains_iff.1 (contains_of_peek? found))
  cases operation with
  | get key =>
    refine iff_of_false (not_not.2 ?_) id
    cases found : c.peek? key with
    | none =>
      rw [Recency.perform, get?, found]
      exact member
    | some value =>
      rw [Recency.perform, get?_snd_of_some found]
      exact kept value found
  | modify key f =>
    refine iff_of_false (not_not.2 ?_) id
    cases found : c.peek? key with
    | none =>
      rw [Recency.perform, modify, found]
      exact member
    | some value =>
      rw [Recency.perform, modify_of_some found]
      exact kept (f value) found
  | put key value => exact inserted key value
  | upsert key default f => exact inserted key _
  | erase key =>
    have left : (c.perform (.erase key)).keys = c.keys.filter (· ≠ key) := keys_others c key
    rw [left, List.mem_filter, and_iff_right member, decide_eq_true_eq, not_not, Expels]
  | retain keep =>
    change entry.1 ∉ ((c.entries.filter fun e => keep e.1 e.2).map (·.1)) ↔ keep entry.1 entry.2 = false
    rw [List.mem_map, ← Bool.not_eq_true, not_iff_not]
    constructor
    · rintro ⟨other, left, same⟩
      obtain ⟨listed', keeps⟩ := List.mem_filter.1 left
      rwa [List.inj_on_of_nodup_map h.distinct listed' listed same] at keeps
    · exact fun keeps => ⟨entry, List.mem_filter.2 ⟨listed, keeps⟩, rfl⟩
  | clear => exact iff_of_true List.not_mem_nil trivial
  | look => exact iff_of_false (not_not.2 member) id

/-- Whatever is done to a table, it never has more entries than it has room for, nor two for one
key. A key has the value that was written to it last since it came in. The entries stand in the
order of the last uses of their keys, the latest first, and what uses no key does not change
that order. An entry goes only when it is expelled; a new key expels from a full table the entry
that was not used for longest, and an insertion gives that entry and no other. As long as
nothing is taken out, the keys are the last ones that were used. -/
theorem contents_of_operations (capacity : Nat) (operations : List (Operation κ α)) :
    let start : Recency κ α := .new capacity
    let c := start.performAll operations
    let log := start.uses operations
    c.size ≤ max 1 capacity ∧ c.keys.Nodup ∧
    (∀ key value, c.peek? key = some value ↔ start.LastWritten operations key value) ∧
    (∀ key ∈ c.keys, key ∈ log) ∧
    (c.keys.Pairwise fun key other => log.idxOf key < log.idxOf other) ∧
    (∀ operation,
      (c.used operation = none → (c.perform operation).entries.Sublist c.entries) ∧
      ∀ entry ∈ c.entries,
        entry.1 ∉ (c.perform operation).keys ↔ c.Expels log entry operation) ∧
    (∀ key value,
      (c.put key value =
        let (gone, d) := c.push key value
        (gone.filter fun entry => !d.contains entry.1, d)) ∧
      ∀ entry, (c.put key value).1 = some entry ↔
        entry ∈ c.entries ∧ c.Expels log entry (.put key value)) ∧
    ((∀ operation ∈ operations, operation.removes = false) →
      c.keys = (recent log).take (max 1 capacity)) := by
  intro start c log
  have empty : start.Ranked [] := ranked_new capacity
  have ranked : c.Ranked log := by
    have ranked := empty.performAll operations
    rwa [List.append_nil] at ranked
  have fixed : c.capacity = max 1 capacity := capacity_performAll start operations
  refine ⟨fixed ▸ ranked.inside, ranked.distinct, ?_, ranked.logged, ranked.order, ?_, ?_, ?_⟩
  · intro key value
    rw [empty.peek?_performAll operations, or_iff_left]
    exact fun held => nomatch held.2
  · exact fun operation => ⟨sublist_of_unused, fun entry listed => ranked.lost_iff listed operation⟩
  · refine fun key value => ⟨ranked.distinct.put_eq key value, fun entry => ?_⟩
    rw [ranked.put_eq_some_iff, ranked.getLast?_iff]
    constructor
    · rintro ⟨fresh, full, listed, last⟩
      exact ⟨listed, fresh, full, last⟩
    · rintro ⟨listed, fresh, full, last⟩
      exact ⟨fresh, full, listed, last⟩
  · intro kept
    have logged := (logged_new capacity : start.Logged []).performAll operations kept
    rw [List.append_nil] at logged
    rw [← fixed]
    exact logged.held

/-- A key that is read again outlasts one that came later. -/
theorem contents_of_two_places :
    let start : Recency Nat String := .new 2
    let operations : List (Operation Nat String) := [.put 1 "a", .put 2 "b", .get 1]
    let c := start.performAll operations
    c.keys = [1, 2] ∧ (c.put 3 "c").1 = some (2, "b") := by
  intro start operations c
  obtain ⟨-, -, -, -, -, -, puts, order⟩ := contents_of_operations 2 operations
  have kept : ∀ operation ∈ operations, operation.removes = false := by
    simp [operations, Operation.removes]
  have full : c.Expels (start.uses operations) (2, "b") (.put 3 "c") :=
    ⟨by decide, by decide, by decide⟩
  exact ⟨(order kept).trans (by decide), ((puts 3 "c").2 (2, "b")).2 ⟨by decide, full⟩⟩

end BlockSync.Recency
