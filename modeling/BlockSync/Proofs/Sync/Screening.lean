import BlockSync.Sync.Screening
import Mathlib.Data.List.Chain

/-! The screening of a batch takes all of it or nothing. A batch passes exactly if the validator
accepts each header and each builds on the one before it, and then the headers with unknown
hashes are left, in order. Otherwise it is refused for its first fault, and a header that the
validator refuses is at fault for that, wherever it stands. -/
namespace BlockSync

def Header.Precedes (h next : Header) : Prop :=
  h.number.toNat + 1 = next.number.toNat ∧ next.parentHash = h.hash

def Header.asEnd (h : Header) : ChainEnd :=
  (h.number, h.hash)

theorem Header.extends_asEnd_iff {h next : Header} :
    next.extends? h.asEnd = true ↔ h.Precedes next := by
  change next.extends? (h.number, h.hash) = true ↔ _
  simp only [extends?, Precedes, Bool.and_eq_true, decide_eq_true_eq]

/-- The validator accepts each header, and each builds on the one before it. -/
def Flawless (validate : Validator) (headers : List Header) : Prop :=
  (∀ h ∈ headers, validate h = .ok ()) ∧ headers.IsChain Header.Precedes

/-- What is wrong with a header, by itself or after the header before it. -/
inductive Fault (validate : Validator) (before : Option Header) (h : Header) :
    BatchRejection → Prop
  | invalid {cause : HeaderError} (refused : validate h = .error cause) :
      Fault validate before h (.invalid h.number cause)
  | discontinuous {last : Header} (accepted : validate h = .ok ()) (follows : before = some last)
      (apart : ¬ last.Precedes h) : Fault validate before h (.discontinuous h.number)

variable {validate : Validator} {known : Hash → Bool} {before : Option Header} {h : Header}
  {headers read fresh : List Header} {rejection other : BatchRejection}

theorem Fault.unique (one : Fault validate before h rejection)
    (two : Fault validate before h other) : rejection = other := by
  cases one with
  | invalid refused =>
    cases two with
    | invalid refused' => cases refused.symm.trans refused'; rfl
    | discontinuous accepted => cases refused.symm.trans accepted
  | discontinuous accepted =>
    cases two with
    | invalid refused => cases refused.symm.trans accepted
    | discontinuous => rfl

/-- A header without a fault goes through, and a fault stops the screening there. -/
theorem screenFrom_cons (validate : Validator) (known : Hash → Bool) (before : Option Header)
    (h : Header) (rest : List Header) :
    (∃ rejection, Fault validate before h rejection ∧
      screenFrom validate known (before.map Header.asEnd) (h :: rest) = .error rejection) ∨
    (validate h = .ok () ∧ ∀ last ∈ before, last.Precedes h) ∧
      screenFrom validate known (before.map Header.asEnd) (h :: rest) =
        (screenFrom validate known (some h.asEnd) rest).map
          fun fresh => if known h.hash then fresh else h :: fresh := by
  rw [screenFrom]
  cases tried : validate h with
  | error cause => exact .inl ⟨_, .invalid tried, rfl⟩
  | ok accepted =>
    dsimp only
    split
    · rename_i extending
      refine .inr ⟨⟨rfl, ?_⟩, ?_⟩
      · rintro last rfl
        exact Header.extends_asEnd_iff.1 extending
      · rw [Header.asEnd]
        cases screenFrom validate known (some (h.number, h.hash)) rest <;> rfl
    · rename_i extending
      cases before with
      | none => exact absurd rfl extending
      | some last =>
        have apart : ¬ last.Precedes h := fun joined =>
          extending (Header.extends_asEnd_iff.2 joined)
        exact .inl ⟨_, .discontinuous tried rfl apart, rfl⟩

theorem flawless_nil : Flawless validate [] :=
  ⟨fun _ member => (List.not_mem_nil member).elim, .nil⟩

theorem flawless_concat_iff :
    Flawless validate (read ++ [h]) ↔
      Flawless validate read ∧ validate h = .ok () ∧ ∀ last ∈ read.getLast?, last.Precedes h := by
  simp only [Flawless, List.isChain_append, List.mem_append, List.mem_singleton, or_imp,
    forall_and, forall_eq, List.isChain_singleton, List.head?_cons, Option.mem_some_iff,
    forall_eq', true_and]
  tauto

theorem Flawless.of_append (flawless : Flawless validate (read ++ headers)) :
    Flawless validate read :=
  ⟨fun h member => flawless.1 h (List.mem_append_left _ member), flawless.2.left_of_append⟩

/-- A header at fault stands in no flawless batch. -/
theorem Fault.not_flawless (fault : Fault validate read.getLast? h rejection)
    (headers : List Header) : ¬ Flawless validate (read ++ h :: headers) := by
  intro flawless
  rw [List.append_cons] at flawless
  obtain ⟨-, accepted, joined⟩ := flawless_concat_iff.1 flawless.of_append
  cases fault with
  | invalid refused => cases refused.symm.trans accepted
  | discontinuous _ follows apart => exact apart (joined _ follows)

/-- The induction is on the headers to come; those that were read are flawless. -/
theorem screenFrom_eq_ok_iff (flawless : Flawless validate read) :
    screenFrom validate known (read.getLast?.map Header.asEnd) headers = .ok fresh ↔
      Flawless validate (read ++ headers) ∧ fresh = headers.filter fun h => !known h.hash := by
  induction headers generalizing read fresh with
  | nil => simp [screenFrom, flawless, eq_comm]
  | cons h rest ih =>
    rcases screenFrom_cons validate known read.getLast? h rest with
      ⟨rejection, fault, stopped⟩ | ⟨accepted, passed⟩
    · rw [stopped]
      exact iff_of_false (fun impossible => by cases impossible)
        fun passes => fault.not_flawless rest passes.1
    · have later := @ih (read ++ [h])
      rw [List.getLast?_concat, Option.map_some, List.append_assoc, List.singleton_append] at later
      have clean := flawless_concat_iff.2 ⟨flawless, accepted⟩
      rw [passed, List.filter_cons]
      cases screened : screenFrom validate known (some h.asEnd) rest with
      | error rejection =>
        refine iff_of_false (fun impossible => by cases impossible) fun passes => ?_
        cases screened.symm.trans ((later clean).2 ⟨passes.1, rfl⟩)
      | ok left =>
        obtain ⟨whole, rfl⟩ := (later clean).1 screened
        cases known h.hash <;> simp [Except.map, whole, eq_comm]

theorem screenFrom_eq_error_iff (flawless : Flawless validate read) :
    screenFrom validate known (read.getLast?.map Header.asEnd) headers = .error rejection ↔
      ∃ front h back, headers = front ++ h :: back ∧ Flawless validate (read ++ front) ∧
        Fault validate (read ++ front).getLast? h rejection := by
  induction headers generalizing read with
  | nil => simp [screenFrom]
  | cons h rest ih =>
    rcases screenFrom_cons validate known read.getLast? h rest with
      ⟨found, fault, stopped⟩ | ⟨accepted, passed⟩
    · rw [stopped]
      constructor
      · intro same
        cases same
        refine ⟨[], h, rest, rfl, ?_, ?_⟩ <;> rwa [List.append_nil]
      · rintro ⟨front, first, back, split, clean, fault'⟩
        cases front with
        | nil =>
          cases split
          rw [List.append_nil] at fault'
          rw [fault.unique fault']
        | cons _ front =>
          cases split
          exact absurd clean (fault.not_flawless front)
    · have later := @ih (read ++ [h]) (flawless_concat_iff.2 ⟨flawless, accepted⟩)
      rw [List.getLast?_concat, Option.map_some] at later
      have same : screenFrom validate known (read.getLast?.map Header.asEnd) (h :: rest) =
          .error rejection ↔ screenFrom validate known (some h.asEnd) rest = .error rejection := by
        rw [passed]
        cases screenFrom validate known (some h.asEnd) rest <;> simp [Except.map]
      rw [same, later]
      constructor
      · rintro ⟨front, first, back, rfl, clean, fault⟩
        rw [List.append_assoc, List.singleton_append] at clean fault
        exact ⟨h :: front, first, back, rfl, clean, fault⟩
      · rintro ⟨front, first, back, split, clean, fault⟩
        cases front with
        | nil =>
          cases split
          rw [List.append_nil] at fault
          exact absurd (flawless_concat_iff.2 ⟨flawless, accepted⟩) (fault.not_flawless [])
        | cons _ front =>
          cases split
          refine ⟨front, first, back, rfl, ?_, ?_⟩ <;> rwa [List.append_assoc]

theorem screen_eq_ok_iff :
    screen validate known headers = .ok fresh ↔
      Flawless validate headers ∧ fresh = headers.filter fun h => !known h.hash :=
  screenFrom_eq_ok_iff flawless_nil

theorem screen_eq_error_iff :
    screen validate known headers = .error rejection ↔
      ∃ front h back, headers = front ++ h :: back ∧ Flawless validate front ∧
        Fault validate front.getLast? h rejection :=
  screenFrom_eq_error_iff flawless_nil

/-- The screening finds no gap in linked headers, whatever the validator says of them. -/
theorem screen_ne_discontinuous (linked : headers.IsChain Header.Precedes) (gap : UInt64) :
    screen validate known headers ≠ .error (.discontinuous gap) := by
  intro refused
  obtain ⟨front, h, back, rfl, -, fault⟩ := screen_eq_error_iff.1 refused
  cases fault with
  | discontinuous _ before apart =>
    exact apart ((List.isChain_append.1 linked).2.2 _ before _ rfl)

end BlockSync
