import BlockSync.Recency
import Mathlib.Data.Set.Card

/-! Tables of bounded size. As long as no more keys are used than a table has room for, it
forgets nothing, and is a map from keys to the values that they were given last. -/
namespace BlockSync.Recency

variable {κ α : Type} [DecidableEq κ] {c : Recency κ α} {key other : κ} {value : α}

theorem mem_of_mem_insert {entry : κ × α} (listed : entry ∈ (c.insert key value).entries) :
    entry = (key, value) ∨ entry ∈ c.entries := by
  unfold insert put at listed
  split at listed
  · rcases List.mem_cons.1 listed with new | old
    · exact .inl new
    · exact .inr (List.mem_filter.1 old).1
  · split at listed
    · exact List.mem_cons.1 listed
    · rcases List.mem_cons.1 listed with new | old
      · exact .inl new
      · exact .inr (List.dropLast_subset _ old)

theorem contains_insert (h : (c.insert key value).contains other = true) :
    key = other ∨ c.contains other = true := by
  simp only [Recency.contains, List.any_eq_true, decide_eq_true_eq] at h ⊢
  obtain ⟨entry, listed, rfl⟩ := h
  rcases mem_of_mem_insert listed with rfl | old
  · exact .inl rfl
  · exact .inr ⟨entry, old, rfl⟩

theorem contains_insert_self (c : Recency κ α) (key : κ) (value : α) :
    (c.insert key value).contains key = true := by
  unfold insert put Recency.contains
  split
  · simp
  · split <;> simp

theorem mem_of_peek? (found : c.peek? key = some value) : (key, value) ∈ c.entries := by
  obtain ⟨⟨other, held⟩, first, rfl⟩ := Option.map_eq_some_iff.1 found
  have same : other = key := by simpa using List.find?_some first
  rw [← same]
  exact List.mem_of_find?_eq_some first

theorem peek?_insert_self (c : Recency κ α) (key : κ) (value : α) :
    (c.insert key value).peek? key = some value := by
  unfold insert put peek?
  split
  · simp
  · split <;> simp

theorem find?_cons_of_ne (apart : key ≠ other) (entries : List (κ × α)) :
    ((key, value) :: entries).find? (fun e => e.1 = other) = entries.find? fun e => e.1 = other :=
  List.find?_cons_of_neg (by simpa using apart)

theorem find?_others (apart : key ≠ other) :
    (c.others key).find? (fun e => e.1 = other) = c.entries.find? fun e => e.1 = other := by
  rw [others, List.find?_filter]
  congr 1
  funext e
  by_cases same : e.1 = other
  · simp [same, Ne.symm apart]
  · simp [same]

theorem peek?_insert_of_ne (value : α) (apart : key ≠ other) :
    (c.insert key value).peek? other = c.peek? other ∨ (c.insert key value).peek? other = none := by
  unfold insert put peek?
  split
  · left
    rw [find?_cons_of_ne apart, find?_others apart]
  · split
    · left
      rw [find?_cons_of_ne apart]
    · dsimp only
      rw [find?_cons_of_ne apart]
      cases found : c.entries.dropLast.find? (fun e => e.1 = other) with
      | none => exact .inr rfl
      | some e =>
        left
        rw [List.IsPrefix.find?_eq_some (List.dropLast_prefix c.entries) found]

theorem peek?_insert (room : c.contains key = true ∨ c.size < c.capacity) (value : α)
    (other : κ) :
    (c.insert key value).peek? other = if key = other then some value else c.peek? other := by
  split
  · rename_i same
    rw [← same, peek?_insert_self]
  · rename_i apart
    unfold insert put peek?
    split
    · rw [find?_cons_of_ne apart, find?_others apart]
    · rename_i absent
      rw [if_pos (room.resolve_left absent), find?_cons_of_ne apart]

theorem get?_fst (c : Recency κ α) (key : κ) : (c.get? key).1 = c.peek? key := by
  unfold get?
  split
  · rename_i found
    rw [found]
  · rename_i absent
    rw [absent]

/-- A use is an insertion of what is held. -/
theorem get?_snd_of_some (found : c.peek? key = some value) :
    (c.get? key).2 = c.insert key value := by
  have held : c.contains key = true :=
    List.any_eq_true.2 ⟨_, mem_of_peek? found, decide_eq_true rfl⟩
  rw [get?, found, insert, put, if_pos held]

theorem peek?_erase (c : Recency κ α) (key other : κ) :
    (c.erase key).2.peek? other = if key = other then none else c.peek? other := by
  split
  · rename_i same
    simp [erase, peek?, others, same]
  · rename_i apart
    unfold erase peek?
    rw [find?_others apart]

/-- No two entries have the same key. -/
def Distinct (c : Recency κ α) : Prop :=
  (c.entries.map (·.1)).Nodup

omit [DecidableEq κ] in
theorem Distinct.of_sublist {d : Recency κ α} (h : c.Distinct) (sub : d.entries.Sublist c.entries) :
    d.Distinct :=
  List.Nodup.sublist (sub.map _) h

theorem contains_iff : c.contains key = true ↔ key ∈ c.entries.map (·.1) := by
  simp [Recency.contains, and_comm]

theorem not_contains_iff : c.contains key = false ↔ key ∉ c.entries.map (·.1) := by
  rw [← contains_iff, Bool.not_eq_true]

theorem Distinct.insert (h : c.Distinct) (key : κ) (value : α) : (c.insert key value).Distinct := by
  unfold Recency.insert put
  split
  · have part : (c.others key).Sublist c.entries := List.filter_sublist
    refine List.nodup_cons.2 ⟨?_, h.of_sublist (d := ⟨c.capacity, c.others key⟩) part⟩
    simp [others]
  · rename_i absent
    have fresh := not_contains_iff.1 (Bool.eq_false_iff.2 absent)
    split
    · exact List.nodup_cons.2 ⟨fresh, h⟩
    · have part : c.entries.dropLast.Sublist c.entries := List.dropLast_sublist _
      exact List.nodup_cons.2 ⟨fun listed => fresh ((part.map _).subset listed),
        h.of_sublist (d := ⟨c.capacity, c.entries.dropLast⟩) part⟩

theorem Distinct.peek?_eq_some_iff (h : c.Distinct) :
    c.peek? key = some value ↔ (key, value) ∈ c.entries := by
  refine ⟨mem_of_peek?, ?_⟩
  intro listed
  cases found : c.peek? key with
  | none =>
    rw [peek?, Option.map_eq_none_iff, List.find?_eq_none] at found
    exact absurd (decide_eq_true rfl) (found _ listed)
  | some held =>
    have same := List.inj_on_of_nodup_map h (mem_of_peek? found) listed rfl
    cases same
    rfl

theorem Distinct.peek?_of_perm {d : Recency κ α} (h : c.Distinct) (h' : d.Distinct)
    (perm : c.entries.Perm d.entries) (key : κ) : c.peek? key = d.peek? key := by
  ext value
  rw [h.peek?_eq_some_iff, h'.peek?_eq_some_iff, perm.mem_iff]

theorem Distinct.peek?_retain (h : c.Distinct) (keep : κ → α → Bool) (key : κ) :
    (c.retain keep).peek? key = (c.peek? key).filter (keep key) := by
  have kept : (c.retain keep).Distinct := h.of_sublist List.filter_sublist
  ext value
  rw [kept.peek?_eq_some_iff, Option.filter_eq_some_iff, h.peek?_eq_some_iff]
  exact List.mem_filter

theorem Distinct.mem_keys_iff (h : c.Distinct) :
    key ∈ c.entries.map (·.1) ↔ (c.peek? key).isSome := by
  rw [Option.isSome_iff_exists]
  constructor
  · intro listed
    obtain ⟨⟨_, value⟩, held, rfl⟩ := List.mem_map.1 listed
    exact ⟨value, h.peek?_eq_some_iff.2 held⟩
  · rintro ⟨value, found⟩
    exact List.mem_map_of_mem (mem_of_peek? found)

/-- There are as many entries as keys with a value. -/
theorem Distinct.size_eq (h : c.Distinct) : c.size = {key | (c.peek? key).isSome}.ncard := by
  have same : {key | (c.peek? key).isSome} = ((c.entries.map (·.1)).toFinset : Set κ) := by
    ext key
    rw [Set.mem_ofPred_eq, Finset.mem_coe, List.mem_toFinset, h.mem_keys_iff]
  rw [same, Set.ncard_coe_finset, List.toFinset_card_of_nodup h, List.length_map]
  rfl

/-- The table has room for some keys, holds no others, and gives the values of a map. -/
structure Maps (keys : Finset κ) (c : Recency κ α) (f : κ → Option α) : Prop where
  distinct : c.Distinct
  inside : ∀ entry ∈ c.entries, entry.1 ∈ keys
  room : keys.card ≤ c.capacity
  value : ∀ key, c.peek? key = f key

namespace Maps

variable {keys : Finset κ} {f : κ → Option α}

theorem new {capacity : Nat} (room : keys.card ≤ capacity) :
    Maps keys (Recency.new capacity : Recency κ α) fun _ => none :=
  ⟨List.nodup_nil, fun _ listed => absurd listed List.not_mem_nil,
    Nat.le_trans room (Nat.le_max_right 1 capacity), fun _ => rfl⟩

/-- A key that is not in the table finds room there, since its own place is left. -/
theorem size_lt (h : Maps keys c f) (member : key ∈ keys) (absent : c.contains key = false) :
    c.size < c.capacity := by
  have fresh := not_contains_iff.1 absent
  have part : Insert.insert key (c.entries.map (·.1)).toFinset ⊆ keys := by
    intro other listed
    rcases Finset.mem_insert.1 listed with rfl | old
    · exact member
    · obtain ⟨entry, held, rfl⟩ := List.mem_map.1 (List.mem_toFinset.1 old)
      exact h.inside entry held
  have count := Finset.card_le_card part
  rw [Finset.card_insert_of_notMem (by rwa [List.mem_toFinset]),
    List.toFinset_card_of_nodup h.distinct, List.length_map] at count
  exact Nat.lt_of_lt_of_le count h.room

theorem insert (h : Maps keys c f) (member : key ∈ keys) (value : α) :
    Maps keys (c.insert key value) fun other => if key = other then some value else f other := by
  have room : c.contains key = true ∨ c.size < c.capacity := by
    cases held : c.contains key with
    | true => exact .inl rfl
    | false => exact .inr (h.size_lt member held)
  refine ⟨h.distinct.insert key value, ?_, ?_, ?_⟩
  · intro entry listed
    rcases mem_of_mem_insert listed with rfl | old
    · exact member
    · exact h.inside entry old
  · unfold Recency.insert put
    split
    · exact h.room
    · split <;> exact h.room
  · intro other
    rw [peek?_insert room, h.value]

theorem upsert (h : Maps keys c f) (member : key ∈ keys) (default : α) (g : α → α) :
    Maps keys (c.upsert key default g) fun other =>
      if key = other then some (g ((f key).getD default)) else f other := by
  rw [Recency.upsert, h.value]
  exact h.insert member _

theorem erase (h : Maps keys c f) (key : κ) :
    Maps keys (c.erase key).2 fun other => if key = other then none else f other :=
  ⟨h.distinct.of_sublist List.filter_sublist,
    fun entry listed => h.inside entry (List.mem_filter.1 listed).1, h.room,
    fun other => by rw [peek?_erase, h.value]⟩

theorem retain (h : Maps keys c f) (keep : κ → α → Bool) :
    Maps keys (c.retain keep) fun key => (f key).filter (keep key) :=
  ⟨h.distinct.of_sublist List.filter_sublist,
    fun entry listed => h.inside entry (List.mem_filter.1 listed).1, h.room,
    fun key => by rw [h.distinct.peek?_retain, h.value]⟩

theorem congr {g : κ → Option α} (h : Maps keys c f) (same : ∀ key, g key = f key) :
    Maps keys c g :=
  ⟨h.distinct, h.inside, h.room, fun key => (h.value key).trans (same key).symm⟩

theorem get? (h : Maps keys c f) (key : κ) : Maps keys (c.get? key).2 f := by
  cases found : c.peek? key with
  | none =>
    rw [Recency.get?, found]
    exact h
  | some value =>
    rw [get?_snd_of_some found]
    refine (h.insert (h.inside _ (mem_of_peek? found)) value).congr fun other => ?_
    split
    · rename_i same
      rw [← same, ← h.value, found]
    · rfl

theorem size_eq (h : Maps keys c f) : c.size = {key | (f key).isSome}.ncard := by
  rw [h.distinct.size_eq, funext h.value]

end Maps

end BlockSync.Recency
