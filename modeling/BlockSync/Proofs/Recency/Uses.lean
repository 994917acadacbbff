import BlockSync.Proofs.Recency

/-! Which keys a table of bounded size still has. Its entries stand in the order of last use, so
after insertions alone they are the keys of the log without repetitions, as many as there is
room for, and a key is gone as soon as that many others have come after it. -/
namespace BlockSync.Recency

variable {κ α : Type} [DecidableEq κ] {c : Recency κ α} {key other : κ} {listed log : List κ}

def keys (c : Recency κ α) : List κ :=
  c.entries.map (·.1)

/-- The keys of a log without repetitions. The last use comes first in both. -/
def recent : List κ → List κ
  | [] => []
  | key :: log => key :: (recent log).filter (· ≠ key)

theorem mem_recent : key ∈ recent log ↔ key ∈ log := by
  induction log with
  | nil => exact Iff.rfl
  | cons first log ih =>
    rw [recent, List.mem_cons, List.mem_cons, List.mem_filter, ih, decide_eq_true_eq]
    by_cases same : key = first
    · simp [same]
    · simp [same]

theorem nodup_recent (log : List κ) : (recent log).Nodup := by
  induction log with
  | nil => exact List.nodup_nil
  | cons first log ih => exact List.nodup_cons.2 ⟨by simp, ih.filter _⟩

/-- A key that moves to the front lets in at most one that was beyond the end, but the last
place is gone. -/
theorem take_filter_take (distinct : listed.Nodup) (key : κ) (n : Nat) :
    ((listed.take (n + 1)).filter (· ≠ key)).take n = (listed.filter (· ≠ key)).take n := by
  induction listed generalizing n with
  | nil => rfl
  | cons first listed ih =>
    obtain ⟨fresh, distinct⟩ := List.nodup_cons.1 distinct
    rw [List.take_succ_cons]
    by_cases same : first = key
    · subst same
      have away : ∀ other ∈ listed, decide (other ≠ first) = true :=
        fun other member => decide_eq_true fun equal => fresh (equal ▸ member)
      rw [List.filter_cons_of_neg (by simp), List.filter_cons_of_neg (by simp),
        List.filter_eq_self.2 away,
        List.filter_eq_self.2 fun other member => away other (List.mem_of_mem_take member),
        List.take_take, Nat.min_self]
    · rw [List.filter_cons_of_pos (by simpa using same),
        List.filter_cons_of_pos (by simpa using same)]
      cases n with
      | zero => rfl
      | succ n => rw [List.take_succ_cons, List.take_succ_cons, ih distinct]

theorem keys_others (c : Recency κ α) (key : κ) :
    (c.others key).map (·.1) = c.keys.filter (· ≠ key) := by
  rw [keys, others, List.filter_map]
  rfl

theorem capacity_insert (c : Recency κ α) (key : κ) (value : α) :
    (c.insert key value).capacity = c.capacity := by
  unfold insert put
  split
  · rfl
  · split <;> rfl

theorem keys_insert (inside : c.size ≤ c.capacity) (room : 0 < c.capacity) (key : κ) (value : α) :
    (c.insert key value).keys = (key :: c.keys.filter (· ≠ key)).take c.capacity := by
  have size : c.keys.length = c.size := List.length_map _
  unfold insert put
  split
  · rename_i held
    have fewer : (c.keys.filter (· ≠ key)).length < c.keys.length :=
      List.length_filter_lt_length_iff_exists.2 ⟨key, Recency.contains_iff.1 held, by simp⟩
    rw [List.take_of_length_le (by rw [List.length_cons]; omega), ← keys_others]
    rfl
  · rename_i absent
    have fresh : key ∉ c.keys := not_contains_iff.1 (Bool.eq_false_iff.2 absent)
    have away : c.keys.filter (· ≠ key) = c.keys :=
      List.filter_eq_self.2 fun other member => decide_eq_true fun same => fresh (same ▸ member)
    rw [away]
    split
    · rw [List.take_of_length_le (by rw [List.length_cons]; omega)]
      rfl
    · obtain ⟨n, full⟩ : ∃ n, c.capacity = n + 1 := ⟨c.capacity - 1, by omega⟩
      rw [full, List.take_succ_cons, show n = c.keys.length - 1 by omega, ← List.dropLast_eq_take]
      exact congrArg (key :: ·) List.map_dropLast

/-- The table after insertions in the order of a log. -/
structure Logged (c : Recency κ α) (log : List κ) : Prop where
  room : 0 < c.capacity
  held : c.keys = (recent log).take c.capacity

theorem logged_new (capacity : Nat) : (Recency.new capacity : Recency κ α).Logged [] := by
  refine ⟨?_, by simp [recent, keys, Recency.new]⟩
  exact Nat.le_max_left 1 capacity

theorem Logged.insert (h : c.Logged log) (key : κ) (value : α) :
    (c.insert key value).Logged (key :: log) := by
  have inside : c.size ≤ c.capacity := by
    rw [size, ← List.length_map, show c.entries.map _ = c.keys from rfl, h.held, List.length_take]
    exact Nat.min_le_left _ _
  obtain ⟨n, full⟩ : ∃ n, c.capacity = n + 1 := ⟨c.capacity - 1, by have := h.room; omega⟩
  refine ⟨by rw [capacity_insert]; exact h.room, ?_⟩
  rw [keys_insert inside h.room, capacity_insert, h.held, full, recent, List.take_succ_cons,
    List.take_succ_cons, take_filter_take (nodup_recent log)]

theorem capacity_insertAll (keys : List κ) (value : α) (c : Recency κ α) :
    (keys.foldl (fun c key => c.insert key value) c).capacity = c.capacity := by
  induction keys generalizing c with
  | nil => rfl
  | cons key rest ih => rw [List.foldl_cons, ih, capacity_insert]

theorem Logged.insertAll (h : c.Logged log) (keys : List κ) (value : α) :
    (keys.foldl (fun c key => c.insert key value) c).Logged (keys.reverse ++ log) := by
  induction keys generalizing c log with
  | nil => exact h
  | cons key rest ih =>
    rw [List.foldl_cons, List.reverse_cons, List.append_assoc]
    exact ih (h.insert key value)

theorem takeWhile_filter (key other : κ) (apart : other ≠ key) :
    (listed.filter (· ≠ other)).takeWhile (· ≠ key) =
      (listed.takeWhile (· ≠ key)).filter (· ≠ other) := by
  induction listed with
  | nil => rfl
  | cons first listed ih =>
    by_cases same : first = other
    · subst same
      rw [List.filter_cons_of_neg (by simp), ih, List.takeWhile_cons_of_pos (by simpa using apart),
        List.filter_cons_of_neg (by simp)]
    · rw [List.filter_cons_of_pos (by simpa using same)]
      by_cases stop : first = key
      · rw [List.takeWhile_cons_of_neg (by simpa using stop),
          List.takeWhile_cons_of_neg (by simpa using stop)]
        rfl
      · rw [List.takeWhile_cons_of_pos (by simpa using stop),
          List.takeWhile_cons_of_pos (by simpa using stop), ih,
          List.filter_cons_of_pos (by simpa using same)]

theorem toFinset_takeWhile_recent (key : κ) (log : List κ) :
    ((recent log).takeWhile (· ≠ key)).toFinset = (log.takeWhile (· ≠ key)).toFinset := by
  induction log with
  | nil => rfl
  | cons first log ih =>
    rw [recent]
    by_cases stop : first = key
    · rw [List.takeWhile_cons_of_neg (by simpa using stop),
        List.takeWhile_cons_of_neg (by simpa using stop)]
    · rw [List.takeWhile_cons_of_pos (by simpa using stop),
        List.takeWhile_cons_of_pos (by simpa using stop), takeWhile_filter key first stop,
        List.toFinset_cons, List.toFinset_cons, ← ih]
      ext other
      simp only [Finset.mem_insert, List.mem_toFinset, List.mem_filter, decide_eq_true_eq]
      tauto

theorem mem_take_iff {n : Nat} :
    key ∈ listed.take n ↔ key ∈ listed ∧ (listed.takeWhile (· ≠ key)).length < n := by
  induction listed generalizing n with
  | nil => simp
  | cons first listed ih =>
    cases n with
    | zero => simp
    | succ n =>
      rw [List.take_succ_cons, List.mem_cons, List.mem_cons, ih]
      by_cases stop : first = key
      · rw [List.takeWhile_cons_of_neg (by simpa using stop)]
        simp [stop]
      · rw [List.takeWhile_cons_of_pos (by simpa using stop), List.length_cons]
        simp [Ne.symm stop]

/-- A key is held from its last use until as many others have come as there is room for. -/
theorem Logged.contains_iff (h : c.Logged log) :
    c.contains key = true ↔
      key ∈ log ∧ (log.takeWhile (· ≠ key)).toFinset.card < c.capacity := by
  have distinct : ((recent log).takeWhile (· ≠ key)).Nodup :=
    (nodup_recent log).sublist (List.takeWhile_sublist _)
  rw [Recency.contains_iff, show c.entries.map _ = c.keys from rfl, h.held, mem_take_iff,
    mem_recent, ← toFinset_takeWhile_recent, List.toFinset_card_of_nodup distinct]

end BlockSync.Recency
