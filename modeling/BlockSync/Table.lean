/-! A finite map as a list of entries with distinct keys, the newest first. -/
namespace BlockSync

structure Table (κ α : Type) where
  entries : List (κ × α)
  deriving Repr

namespace Table

variable {κ α : Type} [DecidableEq κ]

def empty : Table κ α := ⟨[]⟩

def size (t : Table κ α) : Nat :=
  t.entries.length

def get? (t : Table κ α) (key : κ) : Option α :=
  (t.entries.find? fun e => e.1 = key).map (·.2)

def contains (t : Table κ α) (key : κ) : Bool :=
  (t.get? key).isSome

def erase (t : Table κ α) (key : κ) : Table κ α :=
  ⟨t.entries.filter fun e => e.1 ≠ key⟩

def insert (t : Table κ α) (key : κ) (value : α) : Table κ α :=
  ⟨(key, value) :: (t.erase key).entries⟩

def modify (t : Table κ α) (key : κ) (f : α → α) : Table κ α :=
  ⟨t.entries.map fun e => if e.1 = key then (e.1, f e.2) else e⟩

def values (t : Table κ α) : List α :=
  t.entries.map (·.2)

@[simp] theorem get?_empty (key : κ) : (empty : Table κ α).get? key = none :=
  rfl

theorem get?_insert (t : Table κ α) (key other : κ) (value : α) :
    (t.insert key value).get? other = if key = other then some value else t.get? other := by
  by_cases h : key = other
  · simp [insert, get?, h]
  · have : ((t.entries.filter fun e => e.1 ≠ key).find? fun e => e.1 = other) =
        t.entries.find? fun e => e.1 = other := by
      rw [List.find?_filter]
      congr 1
      funext e
      by_cases he : e.1 = other <;> simp [he, Ne.symm h]
    simp only [insert, erase, get?, List.find?_cons, h, decide_false, if_false]
    rw [this]

theorem get?_erase (t : Table κ α) (key other : κ) :
    (t.erase key).get? other = if key = other then none else t.get? other := by
  by_cases h : key = other
  · subst h
    simp [erase, get?]
  · simp only [erase, get?, List.find?_filter, if_neg h]
    congr 2
    funext e
    by_cases he : e.1 = other <;> simp [he, Ne.symm h]

theorem size_erase_lt {t : Table κ α} {key : κ} {value : α} (h : t.get? key = some value) :
    (t.erase key).size < t.size := by
  obtain ⟨e, he, _⟩ := Option.map_eq_some_iff.1 h
  have hm : e ∈ t.entries := List.mem_of_find?_eq_some he
  have hk : e.1 = key := by simpa using List.find?_some he
  exact List.length_filter_lt_length_iff_exists.2 ⟨e, hm, by simp [hk]⟩

theorem erase_of_absent {t : Table κ α} {key : κ} (h : t.get? key = none) : t.erase key = t := by
  have absent : ∀ e ∈ t.entries, decide (e.1 = key) = false := by
    simpa [get?] using h
  exact congrArg Table.mk (List.filter_eq_self.2 fun e member => by simpa using absent e member)

theorem size_insert_of_absent {t : Table κ α} {key : κ} (value : α) (h : t.get? key = none) :
    (t.insert key value).size = t.size + 1 := by
  simp [insert, size, erase_of_absent h]

theorem contains_eq_true_iff {t : Table κ α} {key : κ} :
    t.contains key = true ↔ ∃ value, t.get? key = some value :=
  Option.isSome_iff_exists

theorem contains_eq_false_iff {t : Table κ α} {key : κ} :
    t.contains key = false ↔ t.get? key = none := by
  simp [contains]

theorem contains_iff_mem {t : Table κ α} {key : κ} :
    t.contains key = true ↔ key ∈ t.entries.map (·.1) := by
  simp [contains, get?, and_comm]

theorem keys_modify (t : Table κ α) (key : κ) (f : α → α) :
    (t.modify key f).entries.map (·.1) = t.entries.map (·.1) := by
  rw [modify, List.map_map]
  refine List.map_congr_left fun e _ => ?_
  dsimp only [Function.comp]
  split <;> rfl

theorem erase_modify (t : Table κ α) (key : κ) (f : α → α) :
    (t.modify key f).erase key = t.erase key := by
  obtain ⟨entries⟩ := t
  induction entries with
  | nil => rfl
  | cons e rest ih =>
    simp only [modify, erase, Table.mk.injEq] at ih
    by_cases same : e.1 = key
    · simpa [modify, erase, same] using ih
    · simpa [modify, erase, same] using ih

/-- No two entries have the same key, which every operation keeps so. -/
def Distinct (t : Table κ α) : Prop :=
  (t.entries.map (·.1)).Nodup

omit [DecidableEq κ] in
theorem distinct_empty : (empty : Table κ α).Distinct :=
  List.nodup_nil

theorem Distinct.erase {t : Table κ α} (h : t.Distinct) (key : κ) : (t.erase key).Distinct :=
  h.sublist ((List.filter_sublist (l := t.entries)).map _)

theorem Distinct.insert {t : Table κ α} (h : t.Distinct) (key : κ) (value : α) :
    (t.insert key value).Distinct := by
  refine List.nodup_cons.2 ⟨?_, h.erase key⟩
  simp [Table.erase]

theorem Distinct.modify {t : Table κ α} (h : t.Distinct) (key : κ) (f : α → α) :
    (t.modify key f).Distinct := by
  rw [Distinct, keys_modify]
  exact h

theorem Distinct.perm_erase {t : Table κ α} (h : t.Distinct) {key : κ} {value : α}
    (found : t.get? key = some value) : t.entries.Perm ((key, value) :: (t.erase key).entries) := by
  obtain ⟨entries⟩ := t
  induction entries with
  | nil => simp [get?] at found
  | cons e rest ih =>
    obtain ⟨fresh, distinct⟩ := List.nodup_cons.1 h
    obtain ⟨other, held⟩ := e
    by_cases same : other = key
    · subst same
      have kept : (Table.mk ((other, held) :: rest)).erase other = Table.mk rest :=
        congrArg Table.mk (by
          rw [List.filter_cons_of_neg (by simp)]
          exact List.filter_eq_self.2 fun e member => by
            have apart : e.1 ≠ other := fun equal => fresh (equal ▸ List.mem_map.2 ⟨e, member, rfl⟩)
            simpa using apart)
      rw [kept]
      simp only [get?, List.find?_cons, decide_true, Option.map_some, Option.some.injEq] at found
      rw [found]
    · have tail := ih distinct (by simpa [get?, same] using found)
      have kept : ((Table.mk ((other, held) :: rest)).erase key).entries =
          (other, held) :: ((Table.mk rest).erase key).entries := by
        simp [Table.erase, same]
      rw [kept]
      exact (tail.cons _).trans (.swap _ _ _)

theorem mem_entries_of_get? {t : Table κ α} {key : κ} {value : α} (found : t.get? key = some value) :
    (key, value) ∈ t.entries := by
  obtain ⟨e, he, rfl⟩ := Option.map_eq_some_iff.1 found
  have same : e.1 = key := by simpa using List.find?_some he
  exact same ▸ List.mem_of_find?_eq_some he

theorem Distinct.get?_of_mem {t : Table κ α} (h : t.Distinct) {key : κ} {value : α}
    (member : (key, value) ∈ t.entries) : t.get? key = some value := by
  cases found : t.get? key with
  | none =>
    rw [get?, Option.map_eq_none_iff, List.find?_eq_none] at found
    exact absurd (decide_eq_true rfl) (found _ member)
  | some held =>
    have moved := (h.perm_erase found).mem_iff.1 member
    rcases List.mem_cons.1 moved with same | inside
    · cases same
      rfl
    · simp [Table.erase] at inside

end Table

end BlockSync
