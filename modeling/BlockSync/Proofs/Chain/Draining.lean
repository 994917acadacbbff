import BlockSync.Proofs.Chain.Offers

/-! A drain in any order. The hashes to be drained may be taken as they come, and the children
that wait below one of them as well. Every such run ends, after no more turns than there are
waiting blocks and one, and all that end agree: the same blocks are connected, the same are
dropped for their numbers and the same wait on, and the best block is as heavy. -/
namespace BlockSync.Chain

variable {genesis top block parent : Block} {c d e : Chain} {stack : List Hash} {hash : Hash}
variable {joined dropped : List Block} {n m : Nat}

/-- A drain that goes on: the hashes below which it still has to look, and how many blocks it has
connected. -/
structure Draining where
  chain : Chain
  stack : List Hash
  connected : Nat

/-- One hash is taken, whichever, and the children that wait below it in some order. -/
inductive Turn : Draining → Draining → Prop
  | pass {c stack hash rest n} (taken : stack.Perm (hash :: rest))
      (absent : c.pending.get? hash = none) : Turn ⟨c, stack, n⟩ ⟨c, rest, n⟩
  | take {c stack hash rest children order n} (taken : stack.Perm (hash :: rest))
      (found : c.pending.get? hash = some children) (same : order.Perm children) :
      Turn ⟨c, stack, n⟩ ⟨(c.turn hash order).1, (c.turn hash order).2 ++ rest,
        n + (c.turn hash order).2.length⟩

/-- So many turns lead from one state to another. -/
inductive Turns : Nat → Draining → Draining → Prop
  | refl (s : Draining) : Turns 0 s s
  | head {n s t u} (first : Turn s t) (rest : Turns n t u) : Turns (n + 1) s u

variable {s t : Draining}

/-- The drain takes the newest hash first and the children in the order in which they came. -/
theorem turns_drain (c : Chain) (stack : List Hash) (connected : Nat) :
    ∃ n, Turns n ⟨c, stack, connected⟩
      ⟨(c.drain stack).2, [], connected + (c.drain stack).1⟩ := by
  induction c, stack using drain.induct generalizing connected with
  | case1 c =>
    rw [drain_nil]
    exact ⟨0, .refl _⟩
  | case2 c hash stack absent ih =>
    rw [drain_cons_absent stack absent]
    obtain ⟨n, rest⟩ := ih connected
    exact ⟨n + 1, .head (.pass (.refl _) absent) rest⟩
  | case3 c hash stack children found next _ _ _ _ ih =>
    rw [drain_cons_waiting stack found]
    obtain ⟨n, rest⟩ := ih (connected + next.2.length)
    rw [Nat.add_assoc] at rest
    exact ⟨n + 1, .head (.take (.refl _) found (.refl _)) rest⟩

theorem Turn.exists_of_ne_nil (due : s.stack ≠ []) : ∃ t, Turn s t := by
  obtain ⟨c, stack, n⟩ := s
  obtain ⟨hash, rest, rfl⟩ := List.exists_cons_of_ne_nil due
  cases found : c.pending.get? hash with
  | none => exact ⟨_, .pass (.refl _) found⟩
  | some children => exact ⟨_, .take (.refl _) found (.refl _)⟩

/-- A hash leaves the stack with each turn, and one comes for each block that is connected. -/
theorem Turn.length (turn : Turn s t) :
    t.stack.length + s.connected + 1 = s.stack.length + t.connected := by
  cases turn with
  | pass taken =>
    have length := taken.length_eq
    rw [List.length_cons] at length
    dsimp only
    omega
  | take taken =>
    have length := taken.length_eq
    rw [List.length_cons] at length
    simp only [List.length_append]
    omega

theorem Turns.length (turns : Turns n s t) :
    n + t.stack.length + s.connected = s.stack.length + t.connected := by
  induction turns with
  | refl => rw [Nat.zero_add]
  | head first _ ih =>
    have one := first.length
    omega

/-- What a turn connects are some of its children. -/
theorem foldl_connectChild_joins (c : Chain) (children : List Block) (pushed : List Hash) :
    ∃ joined : List Block, joined.Sublist children ∧
      (children.foldl connectChild (c, pushed)).2.length = joined.length + pushed.length ∧
      ∀ hash other, (children.foldl connectChild (c, pushed)).1.blocks.get? hash = some other ↔
        c.blocks.get? hash = some other ∨ other.hash = hash ∧ other ∈ joined := by
  induction children generalizing c pushed with
  | nil => exact ⟨[], .slnil, (Nat.zero_add _).symm, by simp⟩
  | cons child rest ih =>
    rw [List.foldl_cons]
    rcases connectChild_cases (c, pushed) child with ⟨same, -⟩ | ⟨parent, total, fits, grown⟩
    · rw [same]
      obtain ⟨joined, part, length, stored⟩ := ih c pushed
      exact ⟨joined, part.cons child, length, stored⟩
    · rw [grown]
      obtain ⟨joined, part, length, stored⟩ :=
        ih (c.attach child (total + child.header.difficulty)) (child.hash :: pushed)
      refine ⟨child :: joined, part.cons_cons child, ?_, fun hash other => ?_⟩
      · rw [length, List.length_cons, List.length_cons]
        omega
      · refine (stored hash other).trans ?_
        rw [blocks_attach, Table.get?_insert]
        have fresh : c.blocks.get? child.hash = none := fits.fresh
        by_cases same : child.hash = hash
        · subst same
          rw [if_pos rfl, fresh]
          simp only [Option.some_inj, List.mem_cons, reduceCtorEq, false_or]
          constructor
          · rintro (rfl | ⟨own, member⟩)
            · exact ⟨rfl, .inl rfl⟩
            · exact ⟨own, .inr member⟩
          · rintro ⟨own, rfl | member⟩
            · exact .inl rfl
            · exact .inr ⟨own, member⟩
        · rw [if_neg same, List.mem_cons]
          refine or_congr_right (and_congr_right fun own => (or_iff_right ?_).symm)
          rintro rfl
          exact same own

/-- What the turns of a drain have made of a chain. Of the blocks that waited, some are connected,
some are dropped since their numbers do not follow, and the others still wait. -/
structure Underway (c : Chain) (joined dropped : List Block) (s : Draining) : Prop where
  steps : Steps c s.chain
  waits : Waits s.stack s.chain
  due : ∀ hash ∈ s.stack, ∃ block, s.chain.blocks.get? hash = some block
  split : c.waiting.Perm (joined ++ (dropped ++ s.chain.waiting))
  stored : ∀ hash other, s.chain.blocks.get? hash = some other ↔
    c.blocks.get? hash = some other ∨ other.hash = hash ∧ other ∈ joined
  misnumbered : ∀ block ∈ dropped, s.chain.Misnumbered block
  count : s.connected = joined.length

theorem Waits.underway (h : Waits [top.hash] c) (stored : c.blocks.get? top.hash = some top) :
    Underway c [] [] ⟨c, [top.hash], 0⟩ where
  steps := .refl c
  waits := h
  due hash listed := ⟨top, List.mem_singleton.1 listed ▸ stored⟩
  split := .refl _
  stored hash other := by simp
  misnumbered block listed := absurd listed List.not_mem_nil
  count := rfl

theorem Waits.of_perm {rest : List Hash} (h : Waits stack c) (same : stack.Perm rest) :
    Waits rest c :=
  { h with orphaned := fun block member => (h.orphaned block member).imp_right same.mem_iff.1 }

/-- Of the blocks that waited only those that are connected have their hashes stored. -/
theorem Waits.fresh_of_split {left : List Block} (h : Waits stack c) (single : c.Untwinned)
    (split : c.waiting.Perm (joined ++ left))
    (stored : ∀ hash other, d.blocks.get? hash = some other ↔
      c.blocks.get? hash = some other ∨ other.hash = hash ∧ other ∈ joined)
    (member : block ∈ left) : d.blocks.get? block.hash = none := by
  cases held : d.blocks.get? block.hash with
  | none => rfl
  | some other =>
    have waited : block ∈ c.waiting := split.mem_iff.2 (List.mem_append_right _ member)
    rcases (stored _ _).1 held with old | ⟨own, new⟩
    · rw [single.unconnected block waited] at old
      cases old
    · have waited' : other ∈ c.waiting := split.mem_iff.2 (List.mem_append_left _ new)
      have same : other = block := List.inj_on_of_nodup_map single.nodup waited' waited own
      have apart := (List.nodup_append.1 (split.nodup_iff.1 h.nodup)).2.2
      exact absurd same (apart other new block member)

/-- The children below a hash are connected or dropped. -/
theorem Underway.turn (h : Underway c joined dropped s) (ledger : Ledger genesis c)
    (waits : Waits stack c) (single : c.Untwinned) (turn : Turn s t) :
    ∃ joined dropped, Underway c joined dropped t := by
  cases turn with
  | pass taken absent =>
    have less := (h.waits.of_perm taken).pop absent
    exact ⟨joined, dropped, h.steps, less,
      fun other listed => h.due other (taken.mem_iff.2 (List.mem_cons_of_mem _ listed)),
      h.split, h.stored, h.misnumbered, h.count⟩
  | @take d stack hash rest children order n taken found same =>
    obtain ⟨parent, present⟩ := h.due hash (taken.mem_iff.2 List.mem_cons_self)
    have sound := (ledger.steps h.steps).1
    have steps := steps_turn d hash order
    have grown := (sound.steps steps).2
    obtain ⟨after, moved, placed, noted⟩ :=
      (h.waits.of_perm taken).turn_of_perm sound found same present
    obtain ⟨new, part, length, stored⟩ :=
      foldl_connectChild_joins (d.release hash order) order []
    obtain ⟨out, all⟩ := part.exists_perm_append
    have split : c.waiting.Perm
        ((joined ++ new) ++ ((dropped ++ out) ++ (d.turn hash order).1.waiting)) := by
      have parted := moved.trans (all.append_right _)
      refine h.split.trans (((parted.append_left dropped).append_left joined).trans ?_)
      simp only [List.append_assoc]
      refine List.Perm.append_left joined ?_
      rw [← List.append_assoc, ← List.append_assoc new]
      exact List.perm_append_comm.append_right _
    have held (hash' : Hash) (other : Block) :
        (d.turn hash order).1.blocks.get? hash' = some other ↔
          c.blocks.get? hash' = some other ∨ other.hash = hash' ∧ other ∈ joined ++ new := by
      refine (stored hash' other).trans ((or_congr_left (h.stored hash' other)).trans ?_)
      rw [or_assoc, ← and_or_left, ← List.mem_append]
    refine ⟨joined ++ new, dropped ++ out, h.steps.trans steps, after, ?_, split, held, ?_, ?_⟩
    · intro other listed
      rcases List.mem_append.1 listed with pushed | deeper
      · exact noted other pushed
      · obtain ⟨block, before⟩ := h.due other (taken.mem_iff.2 (List.mem_cons_of_mem _ deeper))
        exact ⟨block, grown.blocks_kept _ _ before⟩
    · intro block listed
      rcases List.mem_append.1 listed with old | fallen
      · exact grown.misnumbered (h.misnumbered block old)
      -- a child that is left out has no stored double, so its number is wrong
      · refine (placed block (all.mem_iff.2 (List.mem_append_right _ fallen))).resolve_left ?_
        rintro ⟨other, twin⟩
        have absent : (d.turn hash order).1.blocks.get? block.hash = none :=
          waits.fresh_of_split single split held (by simp [fallen])
        rw [twin] at absent
        cases absent
    · have counted : (d.turn hash order).2.length = new.length := length
      rw [List.length_append, counted, ← h.count]

theorem Underway.turns (h : Underway c joined dropped s) (ledger : Ledger genesis c)
    (waits : Waits stack c) (single : c.Untwinned) (turns : Turns n s t) :
    ∃ joined dropped, Underway c joined dropped t := by
  induction turns generalizing joined dropped with
  | refl => exact ⟨joined, dropped, h⟩
  | head first _ ih =>
    obtain ⟨more, less, next⟩ := h.turn ledger waits single first
    exact ih next

/-- What a drain that is through has done: it has connected the blocks that waited and hang
together with the first one, dropped those that hang below them but do not follow in number, and
left the others. -/
structure Drained (genesis top : Block) (c : Chain) (joined dropped : List Block) (connected : Nat)
    (d : Chain) : Prop where
  ledger : Ledger genesis d
  grown : Extends c d
  waits : Waits [] d
  stored : ∀ hash other, d.blockByHash? hash = some other ↔
    c.blockByHash? hash = some other ∨ other.hash = hash ∧ other ∈ joined
  joins : ∀ block, block ∈ joined ↔ block ∈ c.waiting ∧ Rooted top (· ∈ c.waiting) block
  drops : ∀ block, block ∈ dropped ↔ block ∈ c.waiting ∧
    ∃ parent, Rooted top (· ∈ c.waiting) parent ∧ block.parentHash = parent.hash ∧
      block.number ≠ parent.number + 1
  split : c.waiting.Perm (joined ++ (dropped ++ d.waiting))
  count : connected = joined.length
  pendingCount : c.pendingCount = joined.length + dropped.length + d.pendingCount

theorem Underway.drained (h : Underway c joined dropped s) (ledger : Ledger genesis c)
    (waits : Waits [top.hash] c) (stored : c.blocks.get? top.hash = some top)
    (single : c.Untwinned) (through : s.stack = []) :
    Drained genesis top c joined dropped s.connected s.chain := by
  obtain ⟨sound, grown⟩ := ledger.steps h.steps
  have after : Waits [] s.chain := through ▸ h.waits
  have member {block : Block} :
      block ∈ c.waiting ↔ block ∈ joined ∨ block ∈ dropped ∨ block ∈ s.chain.waiting := by
    rw [h.split.mem_iff, List.mem_append, List.mem_append]
  have settled : ∀ block ∈ c.waiting, s.chain.Settled block := by
    intro block waited
    rcases member.1 waited with new | out | left
    · exact .inl (.inl ⟨block, (h.stored _ _).2 (.inr ⟨rfl, new⟩)⟩)
    · exact .inl (.inr (h.misnumbered block out))
    · exact .inr left
  have came (hash : Hash) (other : Block) (held : s.chain.blocks.get? hash = some other) :
      c.blocks.get? hash = some other ∨ other ∈ c.waiting :=
    ((h.stored hash other).1 held).imp_right fun new => member.2 (.inl new.2)
  obtain ⟨closed, -⟩ := waits.closure ledger stored single h.steps after settled came
    fun block left => member.2 (.inr (.inr left))
  have absent {block : Block} (waited : block ∈ c.waiting) :
      c.blocks.get? block.hash ≠ some block := by
    rw [single.unconnected block waited]
    exact nofun
  have joins (block : Block) : block ∈ joined ↔
      block ∈ c.waiting ∧ Rooted top (· ∈ c.waiting) block := by
    constructor
    · intro new
      have waited := member.2 (.inl new)
      have held := (closed _ _).1 ((h.stored _ _).2 (.inr ⟨rfl, new⟩))
      exact ⟨waited, (held.resolve_left (absent waited)).2⟩
    · rintro ⟨waited, rooted⟩
      have held := (h.stored _ _).1 ((closed _ _).2 (.inr ⟨rfl, rooted⟩))
      exact (held.resolve_left (absent waited)).2
  refine ⟨sound, grown, after, h.stored, joins, fun block => ⟨?_, ?_⟩, h.split, h.count, ?_⟩
  · intro out
    have waited := member.2 (.inr (.inl out))
    obtain ⟨parent, held, wrong⟩ := h.misnumbered block out
    have own := sound.own_hash _ _ held
    refine ⟨waited, parent, ?_, own.symm, wrong⟩
    rcases (closed _ _).1 held with old | ⟨-, rooted⟩
    · rw [waits.top_of_stored stored waited old]
      exact .genesis
    · exact rooted
  · rintro ⟨waited, parent, rooted, link, wrong⟩
    have held : s.chain.blocks.get? block.parentHash = some parent :=
      (closed _ _).2 (.inr ⟨link.symm, rooted⟩)
    rcases member.1 waited with new | out | left
    · obtain ⟨-, follows⟩ := (joins block).1 new
      have present := (closed _ _).2 (.inr ⟨rfl, follows⟩)
      obtain ⟨above, -, held', number, -⟩ :=
        sound.extends_parent _ block present (single.ne_genesis ledger waited)
      rw [held, Option.some.injEq] at held'
      exact absurd (held' ▸ number) wrong
    · exact out
    · rw [(after.orphaned block left).resolve_right List.not_mem_nil] at held
      cases held
  · have length := h.split.length_eq
    rw [List.length_append, List.length_append] at length
    rw [waits.counted, after.counted, length, Nat.add_assoc]

section Agreement

variable {joined' dropped' : List Block}

theorem Drained.blocks_eq (h : Drained genesis top c joined dropped n d)
    (h' : Drained genesis top c joined' dropped' m e) (hash : Hash) :
    d.blocks.get? hash = e.blocks.get? hash := by
  ext other
  refine (h.stored hash other).trans (Iff.trans ?_ (h'.stored hash other).symm)
  rw [h.joins, h'.joins]

/-- The total of a block that hangs below the first one is summed up along the way. -/
theorem Drained.totals_eq_of_rooted (h : Drained genesis top c joined dropped n d)
    (h' : Drained genesis top c joined' dropped' m e) (ledger : Ledger genesis c)
    (stored : c.blocks.get? top.hash = some top) (single : c.Untwinned)
    (rooted : Rooted top (· ∈ c.waiting) block) :
    d.totals.get? block.hash = e.totals.get? block.hash := by
  induction rooted with
  | genesis =>
    obtain ⟨total, recorded⟩ := ledger.total_of_stored stored
    rw [h.grown.totals_kept _ _ recorded, h'.grown.totals_kept _ _ recorded]
  | @child above block rooted waiting link number ih =>
    have new := (h.joins block).2 ⟨waiting, .child rooted waiting link number⟩
    have held : d.blocks.get? block.hash = some block := (h.stored _ _).2 (.inr ⟨rfl, new⟩)
    have apart := single.ne_genesis ledger waiting
    obtain ⟨-, total, -, -, recorded, sum⟩ := h.ledger.extends_parent _ block held apart
    rw [h.blocks_eq h'] at held
    obtain ⟨-, total', -, -, recorded', sum'⟩ := h'.ledger.extends_parent _ block held apart
    rw [← link, recorded, recorded', Option.some.injEq] at ih
    rw [sum, sum', ih]

theorem Drained.totals_eq (h : Drained genesis top c joined dropped n d)
    (h' : Drained genesis top c joined' dropped' m e) (ledger : Ledger genesis c)
    (stored : c.blocks.get? top.hash = some top) (single : c.Untwinned) (hash : Hash) :
    d.totals.get? hash = e.totals.get? hash := by
  cases held : d.blocks.get? hash with
  | none =>
    rw [h.ledger.total_eq_none_iff.2 held]
    rw [h.blocks_eq h'] at held
    rw [h'.ledger.total_eq_none_iff.2 held]
  | some other =>
    rcases (h.stored hash other).1 held with old | ⟨rfl, new⟩
    · obtain ⟨total, recorded⟩ := ledger.total_of_stored old
      rw [h.grown.totals_kept _ _ recorded, h'.grown.totals_kept _ _ recorded]
    · exact h.totals_eq_of_rooted h' ledger stored single ((h.joins other).1 new).2

theorem Ledger.total_le_of_totals_eq (h : Ledger genesis d) (h' : Ledger genesis e)
    (same : ∀ hash, d.totals.get? hash = e.totals.get? hash) : d.total ≤ e.total :=
  h'.best_heaviest d.best d.total (by rw [← same, h.best_total])

/-- What a drain does does not depend on the order of its turns. -/
theorem Drained.agree (h : Drained genesis top c joined dropped n d)
    (h' : Drained genesis top c joined' dropped' m e) (ledger : Ledger genesis c)
    (waits : Waits [top.hash] c) (stored : c.blocks.get? top.hash = some top)
    (single : c.Untwinned) :
    n = m ∧ (∀ hash, d.blockByHash? hash = e.blockByHash? hash) ∧ d.waiting.Perm e.waiting ∧
      (∀ hash, d.total? hash = e.total? hash) ∧ d.total = e.total := by
  have totals := h.totals_eq h' ledger stored single
  have once := h.split.nodup_iff.1 waits.nodup
  have once' := h'.split.nodup_iff.1 waits.nodup
  have new : joined.Perm joined' :=
    (List.perm_ext_iff_of_nodup (List.nodup_append.1 once).1 (List.nodup_append.1 once').1).2
      fun block => (h.joins block).trans (h'.joins block).symm
  have out : dropped.Perm dropped' :=
    (List.perm_ext_iff_of_nodup (List.nodup_append.1 (List.nodup_append.1 once).2.1).1
      (List.nodup_append.1 (List.nodup_append.1 once').2.1).1).2
      fun block => (h.drops block).trans (h'.drops block).symm
  refine ⟨?_, h.blocks_eq h', ?_, totals, ?_⟩
  · rw [h.count, h'.count, new.length_eq]
  · have all := h.split.symm.trans h'.split
    have rest := (List.perm_append_left_iff joined').1 ((new.symm.append_right _).trans all)
    exact (List.perm_append_left_iff dropped').1 ((out.symm.append_right _).trans rest)
  · exact BitVec.le_antisymm (h.ledger.total_le_of_totals_eq h'.ledger totals)
      (h'.ledger.total_le_of_totals_eq h.ledger fun hash => (totals hash).symm)

end Agreement

theorem Waits.length_le (h : Waits stack c) {children : List Block}
    (found : c.pending.get? hash = some children) : children.length ≤ c.pendingCount := by
  have length := (h.waiting_release found).length_eq
  rw [List.length_append, ← h.counted] at length
  omega

/-- Below a block that was just connected a drain ends, whichever hash it takes next and in
whichever order it takes the children. It connects what hangs below the block, drops what does
not follow in number, leaves the others, counts what it connects, and never takes more from the
count of pending blocks than that is. -/
theorem drain_in_any_order (waits : Waits [top.hash] c) (ledger : Ledger genesis c)
    (stored : c.blockByHash? top.hash = some top) (single : c.Untwinned) :
    let start : Draining := ⟨c, [top.hash], 0⟩
    (∃ n, Turns n start ⟨(c.drain [top.hash]).2, [], (c.drain [top.hash]).1⟩) ∧
    (∀ n s, Turns n start s → n ≤ c.pendingCount + 1 ∧ (s.stack ≠ [] → ∃ t, Turn s t) ∧
      ∀ hash children, s.chain.pending.get? hash = some children →
        children.length ≤ s.chain.pendingCount) ∧
    (∀ n s, Turns n start s → s.stack = [] → ∃ joined dropped,
      Drained genesis top c joined dropped s.connected s.chain ∧
      (genesis.number = 0 → s.chain.blockCount < 2 ^ 64 → ∀ block ∈ joined,
        ∃ parent, s.chain.blockByHash? block.parentHash = some parent ∧
          block.number.toNat = parent.number.toNat + 1)) ∧
    ∀ n s m t, Turns n start s → s.stack = [] → Turns m start t → t.stack = [] →
      s.connected = t.connected ∧
      (∀ hash, s.chain.blockByHash? hash = t.chain.blockByHash? hash) ∧
      s.chain.waiting.Perm t.chain.waiting ∧
      (∀ hash, s.chain.total? hash = t.chain.total? hash) ∧ s.chain.total = t.chain.total := by
  intro start
  have reached {n : Nat} {s : Draining} (turns : Turns n start s) :
      ∃ joined dropped, Underway c joined dropped s :=
    (waits.underway stored).turns ledger waits single turns
  have drained {n : Nat} {s : Draining} (turns : Turns n start s) (through : s.stack = []) :
      ∃ joined dropped, Drained genesis top c joined dropped s.connected s.chain := by
    obtain ⟨joined, dropped, underway⟩ := reached turns
    exact ⟨joined, dropped, underway.drained ledger waits stored single through⟩
  refine ⟨?_, fun n s turns => ⟨?_, Turn.exists_of_ne_nil, ?_⟩, fun n s turns through => ?_, ?_⟩
  · obtain ⟨n, turns⟩ := turns_drain c [top.hash] 0
    rw [Nat.zero_add] at turns
    exact ⟨n, turns⟩
  · obtain ⟨joined, dropped, underway⟩ := reached turns
    have bound := turns.length
    have part := underway.split.length_eq
    rw [List.length_append, ← waits.counted, ← underway.count] at part
    change n + s.stack.length + 0 = 1 + s.connected at bound
    omega
  · obtain ⟨joined, dropped, underway⟩ := reached turns
    exact fun hash children found => underway.waits.length_le found
  · obtain ⟨joined, dropped, done⟩ := drained turns through
    refine ⟨joined, dropped, done, fun zero countable block new => ?_⟩
    have held : s.chain.blocks.get? block.hash = some block := (done.stored _ _).2 (.inr ⟨rfl, new⟩)
    have waited := ((done.joins block).1 new).1
    exact done.ledger.number_toNat zero countable held (single.ne_genesis ledger waited)
  · intro n s m t turns through turns' through'
    obtain ⟨joined, dropped, done⟩ := drained turns through
    obtain ⟨joined', dropped', done'⟩ := drained turns' through'
    exact done.agree done' ledger waits stored single

/-- One block waits below another that was just connected. -/
theorem drain_of_fork :
    let base := history Fork.start {} [.block Fork.second]
    let c := base.attach Fork.first (Fork.start.header.difficulty + Fork.first.header.difficulty)
    let d := (c.drain [Fork.first.hash]).2
    Waits [Fork.first.hash] c ∧ c.Untwinned ∧ c.waiting = [Fork.second] ∧
      (c.drain [Fork.first.hash]).1 = 1 ∧
      d.blockByHash? Fork.second.hash = some Fork.second ∧ d.waiting = [] := by
  intro base c d
  have unambiguous : Unambiguous Fork.start (Fork.first :: [Fork.second]) :=
    Fork.unambiguous (show [Fork.start, Fork.first, Fork.second] ⊆ _ by simp)
  have reached : base = (Chain.new Fork.start {}).keep Fork.second :=
    (history_block _ _ _).trans (congrArg Prod.snd Fork.offer_second)
  have fed : Fed Fork.start [Fork.second] base :=
    (fed_new Fork.start {} _).foldl_deliver (List.Subset.refl _)
  have fits : base.Fits Fork.first Fork.start Fork.start.header.difficulty := by
    rw [reached]
    have ledger := ledger_new Fork.start {}
    exact ⟨Fork.absent (by simp) (by decide), ledger.genesis_stored, ledger.genesis_total, rfl⟩
  have waits : Waits [Fork.first.hash] c := fed.waits.attach _
  have single : c.Untwinned := untwinned_attach fed unambiguous fits _
  have waiting : c.waiting = [Fork.second] := by
    rw [Chain.waiting, pending_attach, reached]
    rfl
  obtain ⟨⟨n, turns⟩, -, through, -⟩ :=
    drain_in_any_order waits (fed.ledger.attach fits) (get?_attach_self _ _ _) single
  obtain ⟨joined, dropped, done, -⟩ := through n _ turns rfl
  have waited : Fork.second ∈ c.waiting := by simp [waiting]
  have new : Fork.second ∈ joined :=
    (done.joins _).2 ⟨waited, .child .genesis waited rfl rfl⟩
  have length := done.split.length_eq
  have some_joined := List.length_pos_of_mem new
  rw [waiting, List.length_singleton, List.length_append, List.length_append] at length
  change 1 = joined.length + (dropped.length + d.waiting.length) at length
  refine ⟨waits, single, waiting, ?_, (done.stored _ _).2 (.inr ⟨rfl, new⟩), ?_⟩
  · refine done.count.trans ?_
    omega
  · exact List.eq_nil_of_length_eq_zero (by omega)

end BlockSync.Chain
