import BlockSync.Chain
import Mathlib.Algebra.Group.Nat.Defs
import Mathlib.Logic.Relation

/-! How a chain changes. Whatever it is handed, it grows by single attachments of a
fresh block below a stored parent, and between them only pending storage moves. So
what one attachment keeps is kept by every offer, every range, every drain and every
history of them. -/
namespace BlockSync

/-- What a chain is handed at once: a block to connect or a range to keep. -/
inductive Delivery where
  | block (b : Block)
  | range (bs : List Block)
  deriving DecidableEq, Repr

def Delivery.blocks : Delivery → List Block
  | block b => [b]
  | range bs => bs

namespace Chain

def deliver (c : Chain) : Delivery → Chain
  | .block b => (c.offer b).2
  | .range bs => (c.storeRange bs).2

/-- The chain that began with a genesis block and was handed these deliveries. -/
def history (genesis : Block) (config : ChainConfig) (deliveries : List Delivery) : Chain :=
  deliveries.foldl deliver (.new genesis config)

theorem history_block (genesis block : Block) (config : ChainConfig) :
    history genesis config [.block block] = ((Chain.new genesis config).offer block).2 :=
  rfl

theorem history_range (genesis : Block) (blocks : List Block) (config : ChainConfig) :
    history genesis config [.range blocks] = ((Chain.new genesis config).storeRange blocks).2 :=
  rfl

theorem history_concat (genesis : Block) (config : ChainConfig) (deliveries : List Delivery)
    (delivery : Delivery) : history genesis config (deliveries ++ [delivery]) =
      (history genesis config deliveries).deliver delivery := by
  simp [history]

theorem history_concat_block (genesis : Block) (config : ChainConfig) (deliveries : List Delivery)
    (block : Block) : history genesis config (deliveries ++ [.block block]) =
      ((history genesis config deliveries).offer block).2 :=
  history_concat genesis config deliveries (.block block)

/-- The block is not stored, its parent is, and the numbers follow on each other. -/
structure Fits (c : Chain) (block parent : Block) (total : Difficulty) : Prop where
  fresh : c.blocks.get? block.hash = none
  parent_stored : c.blocks.get? block.parentHash = some parent
  parent_total : c.totals.get? block.parentHash = some total
  number : block.number = parent.number + 1

def grow (c : Chain) (block : Block) (total : Difficulty) : Chain :=
  { c with
    blocks := c.blocks.insert block.hash block
    totals := c.totals.insert block.hash total }

def attach (c : Chain) (block : Block) (total : Difficulty) : Chain :=
  if total > (c.grow block total).total then (c.grow block total).setBest block.hash block.number
  else c.grow block total

@[simp] theorem blocks_attach (c : Chain) (block : Block) (total : Difficulty) :
    (c.attach block total).blocks = c.blocks.insert block.hash block := by
  unfold attach
  split <;> rfl

theorem get?_attach_self (c : Chain) (block : Block) (total : Difficulty) :
    (c.attach block total).blocks.get? block.hash = some block := by
  rw [blocks_attach, Table.get?_insert, if_pos rfl]

@[simp] theorem totals_attach (c : Chain) (block : Block) (total : Difficulty) :
    (c.attach block total).totals = c.totals.insert block.hash total := by
  unfold attach
  split <;> rfl

@[simp] theorem genesis_attach (c : Chain) (block : Block) (total : Difficulty) :
    (c.attach block total).genesis = c.genesis := by
  unfold attach
  split <;> rfl

@[simp] theorem config_attach (c : Chain) (block : Block) (total : Difficulty) :
    (c.attach block total).config = c.config := by
  unfold attach
  split <;> rfl

@[simp] theorem pending_attach (c : Chain) (block : Block) (total : Difficulty) :
    (c.attach block total).pending = c.pending := by
  unfold attach
  split <;> rfl

@[simp] theorem pendingCount_attach (c : Chain) (block : Block) (total : Difficulty) :
    (c.attach block total).pendingCount = c.pendingCount := by
  unfold attach
  split <;> rfl

def Misnumbered (c : Chain) (block : Block) : Prop :=
  ∃ parent, c.blocks.get? block.parentHash = some parent ∧ block.number ≠ parent.number + 1

theorem connect_cases {c : Chain} {block : Block} (fresh : c.blocks.get? block.hash = none) :
    (c.connect block = none ∧
      (c.totals.get? block.parentHash = none ∨ c.blocks.get? block.parentHash = none)) ∨
    (c.connect block = some (.invalid, c) ∧ c.Misnumbered block) ∨
    ∃ result parent total, c.Fits block parent total ∧ result.isImported = true ∧
      c.connect block = some (result, c.attach block (total + block.header.difficulty)) := by
  unfold connect
  cases htotal : c.totals.get? block.parentHash with
  | none => exact .inl ⟨rfl, .inl rfl⟩
  | some total =>
    cases hparent : c.blocks.get? block.parentHash with
    | none => exact .inl ⟨rfl, .inr rfl⟩
    | some parent =>
      by_cases number : block.number = parent.number + 1
      · have fits : c.Fits block parent total := ⟨fresh, hparent, htotal, number⟩
        by_cases heavy : total + block.header.difficulty >
            (c.grow block (total + block.header.difficulty)).total
        · refine .inr (.inr ⟨.importedBest, parent, total, fits, rfl, ?_⟩)
          rw [attach, if_pos heavy]
          exact (if_neg (Decidable.not_not.2 number)).trans (if_pos heavy)
        · refine .inr (.inr ⟨.importedNotBest, parent, total, fits, rfl, ?_⟩)
          rw [attach, if_neg heavy]
          exact (if_neg (Decidable.not_not.2 number)).trans (if_neg heavy)
      · exact .inr (.inl ⟨if_pos number, parent, hparent, number⟩)

/-- What changes a chain: an attachment, or a move in pending storage. -/
inductive Step : Chain → Chain → Prop
  | attach {c block parent total} (fits : c.Fits block parent total) :
      Step c (c.attach block (total + block.header.difficulty))
  | pending (c : Chain) (pending : Table Hash (List Block)) (count : Nat) :
      Step c { c with pending, pendingCount := count }

def Steps : Chain → Chain → Prop :=
  Relation.ReflTransGen Step

theorem Steps.refl (c : Chain) : Steps c c :=
  Relation.ReflTransGen.refl

theorem Steps.trans {c d e : Chain} (h : Steps c d) (k : Steps d e) : Steps c e :=
  Relation.ReflTransGen.trans h k

theorem Step.steps {c d : Chain} (h : Step c d) : Steps c d :=
  Relation.ReflTransGen.single h

theorem Step.stored {c d : Chain} {hash : Hash} (step : Step c d) (h : ∃ block, c.blocks.get? hash = some block) :
    ∃ block, d.blocks.get? hash = some block := by
  cases step with
  | @attach block parent total _ =>
    rw [blocks_attach]
    by_cases same : block.hash = hash
    · exact ⟨block, by rw [Table.get?_insert, if_pos same]⟩
    · obtain ⟨other, found⟩ := h
      exact ⟨other, by rw [Table.get?_insert, if_neg same, found]⟩
  | pending => exact h

theorem Steps.stored {c d : Chain} {hash : Hash} (steps : Steps c d) (h : ∃ block, c.blocks.get? hash = some block) :
    ∃ block, d.blocks.get? hash = some block := by
  induction steps with
  | refl => exact h
  | tail _ step ih => exact step.stored ih

theorem steps_connect {c d : Chain} {block : Block} {result : ImportResult}
    (fresh : c.blocks.get? block.hash = none) (h : c.connect block = some (result, d)) :
    Steps c d := by
  obtain ⟨none, -⟩ | ⟨invalid, -⟩ | ⟨result, parent, total, fits, -, connected⟩ :=
    connect_cases fresh
  · rw [h] at none; cases none
  · rw [h] at invalid; cases invalid; exact .refl c
  · rw [h] at connected; cases connected; exact (Step.attach fits).steps

theorem steps_storePending (c : Chain) (block : Block) : Steps c (c.storePending block).2 := by
  unfold storePending
  dsimp only
  split
  · exact .refl c
  · split
    · exact .refl c
    · exact (Step.pending c _ _).steps

theorem get?_eq_none_of_not_contains {t : Table Hash Block} {hash : Hash}
    (h : ¬ t.contains hash = true) : t.get? hash = none := by
  simpa [Table.contains] using h

theorem steps_connectChild (state : Chain × List Hash) (child : Block) :
    Steps state.1 (connectChild state child).1 := by
  unfold connectChild
  dsimp only
  split
  · exact .refl _
  · rename_i absent
    have fresh := get?_eq_none_of_not_contains absent
    split
    · rename_i result d connected
      split <;> exact steps_connect fresh connected
    · exact .refl _

theorem steps_foldl_connectChild (children : List Block) (state : Chain × List Hash) :
    Steps state.1 (children.foldl connectChild state).1 := by
  induction children generalizing state with
  | nil => exact .refl _
  | cons child rest ih =>
    rw [List.foldl_cons]
    exact (steps_connectChild state child).trans (ih _)

theorem steps_release (c : Chain) (parent : Hash) (children : List Block) :
    Steps c (c.release parent children) :=
  (Step.pending c _ _).steps

def turn (c : Chain) (parent : Hash) (children : List Block) : Chain × List Hash :=
  children.foldl connectChild (c.release parent children, [])

theorem drain_nil (c : Chain) : c.drain [] = (0, c) := by
  rw [drain]

theorem drain_cons_absent {c : Chain} {parent : Hash} (stack : List Hash)
    (absent : c.pending.get? parent = none) : c.drain (parent :: stack) = c.drain stack := by
  rw [drain]
  split
  · rfl
  · rename_i found
    rw [absent] at found
    cases found

theorem drain_cons_waiting {c : Chain} {parent : Hash} {children : List Block} (stack : List Hash)
    (waiting : c.pending.get? parent = some children) :
    c.drain (parent :: stack) =
      let next := c.turn parent children
      let rest := next.1.drain (next.2 ++ stack)
      (next.2.length + rest.1, rest.2) := by
  rw [drain]
  split
  · rename_i found
    rw [waiting] at found
    cases found
  · rename_i found
    rw [waiting] at found
    cases found
    rfl

/-- A drain does nothing, passes over a hash below which nothing waits, or takes a turn. -/
theorem drain_induction {motive : Chain → List Hash → Chain → Prop}
    (done : ∀ c, motive c [] c)
    (absent : ∀ c parent stack d, c.pending.get? parent = none → motive c stack d →
      motive c (parent :: stack) d)
    (turn : ∀ c parent stack children d, c.pending.get? parent = some children →
      motive (c.turn parent children).1 ((c.turn parent children).2 ++ stack) d →
      motive c (parent :: stack) d)
    (c : Chain) (stack : List Hash) : motive c stack (c.drain stack).2 := by
  induction c, stack using drain.induct with
  | case1 c => rw [drain_nil]; exact done c
  | case2 c parent stack none ih =>
    rw [drain_cons_absent stack none]
    exact absent c parent stack _ none ih
  | case3 c parent stack children waiting next _ _ _ _ ih =>
    rw [drain_cons_waiting stack waiting]
    exact turn c parent stack children _ waiting ih

theorem steps_turn (c : Chain) (parent : Hash) (children : List Block) :
    Steps c (c.turn parent children).1 :=
  (steps_release c parent children).trans (steps_foldl_connectChild children (_, []))

theorem steps_drain (c : Chain) (stack : List Hash) : Steps c (c.drain stack).2 := by
  apply drain_induction (motive := fun c _ d => Steps c d)
  · exact Steps.refl
  · intro c parent stack d _ rest
    exact rest
  · intro c parent stack children d _ rest
    exact (steps_turn c parent children).trans rest

theorem steps_offer (c : Chain) (block : Block) : Steps c (c.offer block).2 := by
  unfold offer
  split
  · exact .refl c
  · rename_i absent
    have fresh := get?_eq_none_of_not_contains absent
    split
    · have kept := steps_storePending c block
      split <;> rename_i stored <;> rw [stored] at kept <;> exact kept
    · rename_i result d connected
      have grown := steps_connect fresh connected
      split
      · exact grown.trans (steps_drain d _)
      · exact grown

theorem steps_storeRange (c : Chain) (blocks : List Block) : Steps c (c.storeRange blocks).2 := by
  induction blocks generalizing c with
  | nil => exact .refl c
  | cons block rest ih =>
    unfold storeRange
    dsimp only
    split
    · exact ih c
    · rename_i absent
      have fresh := get?_eq_none_of_not_contains absent
      split
      · split
        · rename_i result d connected
          have grown := steps_connect fresh connected
          split
          · exact grown.trans ((steps_drain d _).trans (ih _))
          · exact grown.trans (ih d)
        · exact ih c
      · have kept := steps_storePending c block
        split
        · rename_i d stored
          rw [stored] at kept
          exact kept.trans (ih d)
        · rename_i d stored
          rw [stored] at kept
          exact kept

theorem steps_deliver (c : Chain) (delivery : Delivery) : Steps c (c.deliver delivery) := by
  cases delivery with
  | block b => exact steps_offer c b
  | range bs => exact steps_storeRange c bs

theorem steps_foldl_deliver (deliveries : List Delivery) (c : Chain) :
    Steps c (deliveries.foldl deliver c) := by
  induction deliveries generalizing c with
  | nil => exact .refl c
  | cons delivery rest ih =>
    rw [List.foldl_cons]
    exact (steps_deliver c delivery).trans (ih _)

theorem steps_history (genesis : Block) (config : ChainConfig) (deliveries : List Delivery) :
    Steps (.new genesis config) (history genesis config deliveries) :=
  steps_foldl_deliver deliveries _

end Chain

end BlockSync
