import BlockSync.Proofs.Network.Charges

/-! Calls that charge errors, step by step. A call lets go of the errors before it takes the node
table, and lets go of that between the ban, the notice and the end of the connection. So other
errors are counted and nodes come and go between any two of its steps, and several calls may be
under way for one peer. -/
namespace BlockSync.Transport

/-- What a call does while it holds the errors: it counts one, and finds whether that is one too
many. -/
def countError (t : Transport) (peer : PeerId) : Bool × Transport :=
  if t.Exceeds peer then (true, { t with errors := t.counted peer 0 })
  else (false, { t with errors := t.counted peer (t.errorCount peer + 1) })

/-- What a call has still to do to its peer, when that has made an error too many. -/
inductive Due where
  | ban
  | notify
  | drop
  | note
  deriving DecidableEq, Repr

namespace Due

def act (t : Transport) (peer : PeerId) : Due → Transport
  | ban => { t with nodes := t.nodes.ban peer }
  | notify => { t with nodes := t.nodes.modify peer notified }
  | drop => (t.drop peer).2
  | note => { t with metrics := t.metrics.noteBan }

/-- What comes after a step. -/
def next? : Due → Option Due
  | ban => some notify
  | notify => some drop
  | drop => some note
  | note => none

def all : List Due :=
  [ban, notify, drop, note]

end Due

/-- A charge is the steps of a call with nothing between them. -/
theorem charge_eq (t : Transport) (peer : PeerId) :
    t.charge peer = match t.countError peer with
      | (true, u) => Due.all.foldl (fun u due => due.act u peer) u
      | (false, u) => u := by
  unfold countError
  by_cases exceeds : t.Exceeds peer
  · rw [if_pos exceeds, charge_of_exceeds exceeds]
    rfl
  · rw [if_neg exceeds, charge_of_tolerated exceeds]

/-- The calls of a host: whom errors were counted of, what the calls under way have still to do,
and the peers of those that have ended. Between their steps anything else is done. -/
inductive Calls (start : Transport) :
    List PeerId → List (PeerId × Due) → List PeerId → Transport → Prop
  | start : Calls start [] [] [] start
  | tolerate {log calls ended t peer u} (before : Calls start log calls ended t)
      (counted : t.countError peer = (false, u)) : Calls start (log ++ [peer]) calls ended u
  | exceed {log calls ended t peer u} (before : Calls start log calls ended t)
      (counted : t.countError peer = (true, u)) :
      Calls start (log ++ [peer]) (calls ++ [(peer, .ban)]) ended u
  | proceed {log front peer due further back ended t}
      (before : Calls start log (front ++ (peer, due) :: back) ended t)
      (next : due.next? = some further) :
      Calls start log (front ++ (peer, further) :: back) ended (due.act t peer)
  | finish {log front peer due back ended t}
      (before : Calls start log (front ++ (peer, due) :: back) ended t) (last : due.next? = none) :
      Calls start log (front ++ back) (ended ++ [peer]) (due.act t peer)
  | other {log calls ended t} (before : Calls start log calls ended t) {operation : Operation}
      (none : operation.charged = none) : Calls start log calls ended (t.perform operation)

variable {start t u : Transport} {peer : PeerId} {known : Finset PeerId} {log ended : List PeerId}
  {calls : List (PeerId × Due)} {exceeds : Bool}

/-- No other peer's connection is touched. -/
theorem get?_active_act {other : PeerId} (due : Due) (apart : other ≠ peer) :
    (due.act t peer).nodes.active.get? other = t.nodes.active.get? other := by
  have kept (table : Table PeerId Node) : (table.erase peer).get? other = table.get? other := by
    rw [Table.get?_erase, if_neg apart.symm]
  cases due with
  | ban | note => rfl
  | notify =>
    rw [Due.act, NodeTable.modify, ← kept, Table.erase_modify, kept]
  | drop => rw [Due.act, nodes_drop, NodeTable.drop, kept]

theorem isBanned_act (t : Transport) (peer : PeerId) :
    (Due.ban.act t peer).nodes.isBanned peer = true :=
  Recency.contains_insert_self _ _ _

theorem isActive_act (t : Transport) (peer : PeerId) :
    (Due.drop.act t peer).nodes.isActive peer = false := by
  rw [NodeTable.isActive, Table.contains_eq_false_iff, Due.act, nodes_drop, NodeTable.drop,
    Table.get?_erase, if_pos rfl]

theorem errors_act (t : Transport) (peer : PeerId) (due : Due) :
    (due.act t peer).errors = t.errors ∧ (due.act t peer).config = t.config := by
  cases due with
  | drop => exact ⟨(spared_drop t peer).errors, (spared_drop t peer).config⟩
  | _ => exact ⟨rfl, rfl⟩

/-- Counting an error changes nothing but the counts, and those as the whole charge does. -/
theorem countError_spec (counted : t.countError peer = (exceeds, u)) :
    (exceeds = true ↔ t.Exceeds peer) ∧ u = { t with errors := u.errors } ∧
      u.errors = (t.charge peer).errors := by
  unfold countError at counted
  by_cases full : t.Exceeds peer
  · rw [if_pos full] at counted
    cases counted
    exact ⟨⟨fun _ => full, fun _ => rfl⟩, rfl, (errors_charge_of_exceeds full).symm⟩
  · rw [if_neg full] at counted
    cases counted
    refine ⟨⟨nofun, fun exceeds => absurd exceeds full⟩, rfl, ?_⟩
    rw [charge_of_tolerated full]

theorem Tallied.countError (h : Tallied known log t) (member : peer ∈ known)
    (few : log.length + 1 < 2 ^ 32) (counted : t.countError peer = (exceeds, u)) :
    Tallied known (log ++ [peer]) u := by
  obtain ⟨-, same, errors⟩ := countError_spec counted
  refine (h.charge member few).congr errors ?_
  rw [same, config_charge]

/-- The error that is one too many of a peer makes one more multiple. -/
theorem Tallied.count_div (h : Tallied known log t) (few : log.length + 1 < 2 ^ 32)
    (counted : t.countError peer = (exceeds, u)) (other : PeerId) :
    (log ++ [peer]).count other / (t.config.errorTolerance.toNat + 1) =
      log.count other / (t.config.errorTolerance.toNat + 1) +
        if exceeds then [peer].count other else 0 := by
  by_cases same : peer = other
  · obtain rfl := same
    have reached := (countError_spec counted).1.trans (h.exceeds_iff_dvd few)
    rw [List.count_append, List.count_singleton_self] at reached
    simp only [List.count_append, List.count_singleton_self, Nat.succ_div, reached]
  · have absent : [peer].count other = 0 := List.count_eq_zero.2 (by simpa using Ne.symm same)
    simp [List.count_append, absent]

namespace Calls

theorem config_eq (h : Calls start log calls ended t) : t.config = start.config := by
  induction h with
  | start => rfl
  | tolerate _ counted ih | exceed _ counted ih =>
    rw [(countError_spec counted).2.1]
    exact ih
  | proceed _ _ ih | finish _ _ ih => exact (errors_act _ _ _).2.trans ih
  | other _ none ih => exact (spared_perform _ none).config.trans ih

/-- The counts are right after any number of calls. -/
theorem tallied (h : Calls start log calls ended t) (begun : Tallied known [] start)
    (few : log.length < 2 ^ 32) (inside : ∀ peer ∈ log, peer ∈ known) : Tallied known log t := by
  induction h with
  | start => exact begun
  | tolerate _ counted ih | exceed _ counted ih =>
    rw [List.length_append] at few
    refine (ih (Nat.lt_of_succ_lt few) ?_).countError ?_ few counted
    · exact fun peer listed => inside peer (List.mem_append_left _ listed)
    · exact inside _ (List.mem_append_right _ List.mem_cons_self)
  | proceed _ _ ih | finish _ _ ih =>
    exact (ih few inside).congr (errors_act _ _ _).1 (errors_act _ _ _).2
  | other _ none ih => exact (ih few inside).spared (spared_perform _ none)

/-- Of the errors of a peer each that makes a multiple has a call that is to ban it, or has done
so. -/
theorem owed (h : Calls start log calls ended t) (begun : Tallied known [] start)
    (few : log.length < 2 ^ 32) (inside : ∀ peer ∈ log, peer ∈ known) (peer : PeerId) :
    (calls.map Prod.fst).count peer + ended.count peer =
      log.count peer / (start.config.errorTolerance.toNat + 1) := by
  induction h with
  | start => exact (Nat.zero_div _).symm
  | tolerate before counted ih | exceed before counted ih =>
    rw [List.length_append] at few
    have earlier := fun peer listed => inside peer (List.mem_append_left _ listed)
    have fewer := Nat.lt_of_succ_lt few
    have more := (before.tallied begun fewer earlier).count_div few counted peer
    rw [before.config_eq] at more
    rw [more, ← ih fewer earlier]
    simp [List.count_append, Nat.add_right_comm]
  | proceed _ _ ih =>
    rw [← ih few inside]
    simp
  | finish _ _ ih =>
    rw [← ih few inside]
    simp only [List.map_append, List.map_cons, List.count_append, List.count_cons]
    simp
    omega
  | other _ _ ih => exact ih few inside

theorem bans_eq (h : Calls start log calls ended t) :
    t.metrics.bans = start.metrics.bans + ended.length := by
  induction h with
  | start => rfl
  | tolerate _ counted ih | exceed _ counted ih =>
    rw [(countError_spec counted).2.1]
    exact ih
  | @proceed _ _ _ due _ _ _ _ _ next ih =>
    refine Eq.trans ?_ ih
    cases due with
    | note => cases next
    | drop => exact (spared_drop _ _).bans
    | _ => rfl
  | @finish _ _ _ due _ _ _ _ last ih =>
    cases due with
    | note =>
      rw [List.length_append]
      exact congrArg (· + 1) ih
    | _ => cases last
  | other _ none ih => exact (spared_perform _ none).bans.trans ih

/-- A charge with nothing between its steps is a call that has ended. -/
theorem charge (h : Calls start log [] ended t) (peer : PeerId) :
    ∃ ended, Calls start (log ++ [peer]) [] ended (t.charge peer) := by
  rw [charge_eq]
  rcases counted : t.countError peer with ⟨exceeds, u⟩
  cases exceeds with
  | false => exact ⟨ended, h.tolerate counted⟩
  | true =>
    have go {ended : List PeerId} {t : Transport} {due next : Due}
        (h : Calls start (log ++ [peer]) [(peer, due)] ended t) (after : due.next? = some next) :
        Calls start (log ++ [peer]) [(peer, next)] ended (due.act t peer) :=
      @proceed _ _ [] _ _ _ [] _ _ h after
    exact ⟨_, @finish _ _ [] _ _ [] _ _ (go (go (go (h.exceed counted) rfl) rfl) rfl) rfl⟩

theorem exists_over (start : Transport) (operations : List Operation) :
    ∃ ended, Calls start (charges operations) [] ended (start.run operations) := by
  induction operations using List.reverseRecOn with
  | nil => exact ⟨[], .start⟩
  | append_singleton operations operation ih =>
    obtain ⟨ended, before⟩ := ih
    rw [run_concat, charges_concat]
    cases charged : operation.charged with
    | none =>
      rw [Option.toList_none, List.append_nil]
      exact ⟨ended, before.other charged⟩
    | some peer =>
      obtain rfl := Operation.eq_charge charged
      exact before.charge peer

end Calls

/-- The counts are remainders, and one call of a peer that is under way or has ended stands for each
multiple. -/
structure Balanced (period : Nat) (log : List PeerId) (calls : List (PeerId × Due))
    (ended : List PeerId) (t : Transport) : Prop where
  count : ∀ peer, (t.errorCount peer).toNat = log.count peer % period
  owed : ∀ peer, (calls.map Prod.fst).count peer + ended.count peer = log.count peer / period
  bans : t.metrics.bans = ended.length

/-- An error is counted, and a call is to ban its peer if it makes a multiple. -/
structure Finds (period : Nat) (log : List PeerId) (t u : Transport) (peer : PeerId)
    (exceeds : Bool) : Prop where
  full : exceeds = true ↔ period ∣ (log ++ [peer]).count peer
  same : u = { t with errors := u.errors }
  count : ∀ other, (u.errorCount other).toNat = (log ++ [peer]).count other % period

/-- What the other steps of a call do: the ban and the end of the connection, with no count and no
other peer touched. -/
structure Acts (t : Transport) (peer : PeerId) : Prop where
  banned : (Due.ban.act t peer).nodes.isBanned peer = true
  inactive : (Due.drop.act t peer).nodes.isActive peer = false
  errors : ∀ due : Due, (due.act t peer).errors = t.errors
  others : ∀ (due : Due) (other : PeerId), other ≠ peer →
    (due.act t peer).nodes.active.get? other = t.nodes.active.get? other

theorem acts (t : Transport) (peer : PeerId) : Acts t peer where
  banned := isBanned_act t peer
  inactive := isActive_act t peer
  errors due := (errors_act t peer due).1
  others due _ apart := get?_active_act due apart

namespace Calls

variable {config : NetworkConfig} {own : NodeId} {bootNodes : List BootNode}

theorem balanced (h : Calls (new config own bootNodes) log calls ended t)
    (few : log.length < 2 ^ 32) (room : log.toFinset.card ≤ maxCharged) :
    Balanced (config.errorTolerance.toNat + 1) log calls ended t := by
  have begun := tallied_new config own bootNodes room
  have inside : ∀ peer ∈ log, peer ∈ log.toFinset := fun peer listed => List.mem_toFinset.2 listed
  refine ⟨?_, h.owed begun few inside, h.bans_eq.trans (Nat.zero_add _)⟩
  intro peer
  rw [(h.tallied begun few inside).count, h.config_eq]
  rfl

theorem finds (h : Calls (new config own bootNodes) log calls ended t)
    (counted : t.countError peer = (exceeds, u)) (few : (log ++ [peer]).length < 2 ^ 32)
    (room : (log ++ [peer]).toFinset.card ≤ maxCharged) :
    Finds (config.errorTolerance.toNat + 1) log t u peer exceeds := by
  obtain ⟨full, same, -⟩ := countError_spec counted
  have after : ∃ calls, Calls (new config own bootNodes) (log ++ [peer]) calls ended u := by
    cases exceeds with
    | false => exact ⟨_, h.tolerate counted⟩
    | true => exact ⟨_, h.exceed counted⟩
  obtain ⟨_, next⟩ := after
  refine ⟨?_, same, (next.balanced few room).count⟩
  have inside : ∀ other ∈ log, other ∈ (log ++ [peer]).toFinset := fun other listed =>
    List.mem_toFinset.2 (List.mem_append_left _ listed)
  rw [List.length_append] at few
  have before := h.tallied (tallied_new config own bootNodes room) (Nat.lt_of_succ_lt few) inside
  rw [full, before.exceeds_iff_dvd few, h.config_eq]
  rfl

end Calls

/-- However errors are charged and whatever is done in between, the count of a peer is the
number of its errors modulo one more than is tolerated. The errors that make a multiple of that
ban their peer, and the others are counted and do nothing else. Each charge is the steps of a call
with nothing between them. If other things come between them, the counts are the same, and each of
those errors still has one call that is to ban its peer or has done so. -/
theorem charges_of_run (config : NetworkConfig) (own : NodeId) (bootNodes : List BootNode)
    (operations : List Operation) (few : (charges operations).length < 2 ^ 32)
    (room : (charges operations).toFinset.card ≤ maxCharged) :
    let start := new config own bootNodes
    let period := config.errorTolerance.toNat + 1
    (∀ part, part <+: operations → ∀ peer,
      ((start.run part).errorCount peer).toNat = (charges part).count peer % period) ∧
    (∀ part peer, part ++ [.charge peer] <+: operations →
      let t := start.run part
      let u := t.charge peer
      let errors := (charges (part ++ [.charge peer])).count peer
      (Bans t u peer ↔ period ∣ errors) ∧ (¬ period ∣ errors → Counts t u peer) ∧
      ∀ other, other ≠ peer → u.errorCount other = t.errorCount other ∧
        u.nodes.active.get? other = t.nodes.active.get? other) ∧
    (∃ ended, Calls start (charges operations) [] ended (start.run operations)) ∧
    (∀ t peer, t.charge peer = (match t.countError peer with
        | (true, u) => Due.all.foldl (fun u due => due.act u peer) u
        | (false, u) => u) ∧ Acts t peer) ∧
    ∀ log calls ended t, Calls start log calls ended t →
      (log.length < 2 ^ 32 → log.toFinset.card ≤ maxCharged → Balanced period log calls ended t) ∧
      ∀ peer exceeds u, t.countError peer = (exceeds, u) → (log ++ [peer]).length < 2 ^ 32 →
        (log ++ [peer]).toFinset.card ≤ maxCharged → Finds period log t u peer exceeds := by
  intro start period
  have tallied {part : List Operation} (first : part <+: operations) :
      Tallied (charges operations).toFinset (charges part) (start.run part) := by
    have charged := charges_prefix first
    refine tallied_run (tallied_new config own bootNodes room) part ?_ ?_
    · exact Nat.lt_of_le_of_lt charged.length_le few
    · intro peer listed
      exact List.mem_toFinset.2 (charged.subset listed)
  have fixed (part : List Operation) : (start.run part).config = config := config_run _ part
  refine ⟨?_, ?_, Calls.exists_over start operations, fun t peer => ⟨charge_eq t peer, acts t peer⟩,
    fun log calls ended t h => ⟨h.balanced, fun peer exceeds u => h.finds⟩⟩
  · intro part first peer
    rw [(tallied first).count, fixed]
  · intro part peer first t u errors
    have charged := charges_prefix first
    have log : charges (part ++ [.charge peer]) = charges part ++ [peer] := charges_concat _ _
    have member : peer ∈ (charges operations).toFinset := by
      refine List.mem_toFinset.2 (charged.subset ?_)
      rw [log]
      exact List.mem_append_right _ List.mem_cons_self
    have fewer : (charges part).length + 1 < 2 ^ 32 := by
      refine Nat.lt_of_le_of_lt ?_ few
      simpa [log] using charged.length_le
    have outcome := (tallied ((List.prefix_append _ _).trans first)).outcome member fewer
    rw [fixed, ← log] at outcome
    exact outcome

/-- With one error tolerated, the second bans a peer and the third is counted anew, whatever
another peer is charged with and disconnected for. So it is even before the ban. -/
theorem charges_of_three_errors :
    let config : NetworkConfig := { errorTolerance := 1 }
    let first : List Operation := [.charge ⟨1⟩, .charge ⟨2⟩, .disconnect ⟨2⟩]
    let t := (new config ⟨0⟩ []).run first
    let u := (new config ⟨0⟩ []).run (first ++ [.charge ⟨1⟩])
    (t.errorCount ⟨1⟩).toNat = 1 ∧ Bans t (t.charge ⟨1⟩) ⟨1⟩ ∧ Counts u (u.charge ⟨1⟩) ⟨1⟩ ∧
    ∃ v, Calls (new config ⟨0⟩ []) [⟨1⟩, ⟨1⟩, ⟨1⟩] [(⟨1⟩, .ban)] [] v ∧
      v.nodes.isBanned ⟨1⟩ = false ∧ (v.errorCount ⟨1⟩).toNat = 1 := by
  intro config first t u
  let operations : List Operation := first ++ [.charge ⟨1⟩] ++ [.charge ⟨1⟩]
  have few : (charges operations).length < 2 ^ 32 := by decide
  have room : (charges operations).toFinset.card ≤ maxCharged :=
    Nat.le_trans (List.toFinset_card_le _) (by decide)
  obtain ⟨counts, outcomes, -, -, calls⟩ := charges_of_run config ⟨0⟩ [] operations few room
  have twice : Calls (new config ⟨0⟩ []) [⟨1⟩, ⟨1⟩] [(⟨1⟩, .ban)] [] _ :=
    (Calls.start.tolerate rfl).exceed rfl
  have thrice : Calls (new config ⟨0⟩ []) [⟨1⟩, ⟨1⟩, ⟨1⟩] [(⟨1⟩, .ban)] [] _ := twice.tolerate rfl
  have balanced := (calls _ _ _ _ thrice).1 (by decide) (by decide)
  have start : first <+: operations := ⟨_, (List.append_assoc _ _ _).symm⟩
  have second := outcomes first ⟨1⟩ (List.prefix_append _ _)
  have third := outcomes (first ++ [.charge ⟨1⟩]) ⟨1⟩ (List.prefix_refl _)
  refine ⟨counts first start ⟨1⟩, second.1.2 (by decide), third.2.1 (by decide), _, thrice, rfl, ?_⟩
  exact (balanced.count ⟨1⟩).trans (by decide)

end BlockSync.Transport
