import BlockSync.Header.Rules
import BlockSync.Table

/-! Block storage with fork choice by total difficulty. A block whose parent is
stored is connected; any other waits in pending storage, up to a limit, until its
parent is connected. The canonical index holds at place `n` the hash of the block
numbered `n` on the way from the best block down. Total difficulties wrap at
`2 ^ 256`. -/
namespace BlockSync

inductive ImportResult where
  | importedBest
  | importedNotBest
  | alreadyKnown
  | storedForLater
  | noParent
  | invalid
  deriving DecidableEq, Repr

namespace ImportResult

def isImported : ImportResult → Bool
  | importedBest | importedNotBest => true
  | _ => false

def label : ImportResult → String
  | importedBest => "imported_best"
  | importedNotBest => "imported_not_best"
  | alreadyKnown => "already_known"
  | storedForLater => "stored"
  | noParent => "no_parent"
  | invalid => "invalid"

end ImportResult

structure Chain where
  config : ChainConfig
  genesis : Hash
  best : Hash
  blocks : Table Hash Block
  totals : Table Hash Difficulty
  canonical : Array Hash
  /-- Blocks waiting for a parent, by its hash. -/
  pending : Table Hash (List Block)
  pendingCount : Nat

namespace Chain

def new (genesis : Block) (config : ChainConfig) : Chain :=
  let hash := genesis.hash
  { config, genesis := hash, best := hash
    blocks := Table.empty.insert hash genesis
    totals := Table.empty.insert hash genesis.header.difficulty
    canonical := #[hash], pending := .empty, pendingCount := 0 }

def bestHeader (c : Chain) : Header :=
  match c.blocks.get? c.best with
  | some block => block.header
  | none => .empty

def bestNumber (c : Chain) : UInt64 :=
  c.bestHeader.number

def total (c : Chain) : Difficulty :=
  (c.totals.get? c.best).getD 0

def total? (c : Chain) (hash : Hash) : Option Difficulty :=
  c.totals.get? hash

def blockByHash? (c : Chain) (hash : Hash) : Option Block :=
  c.blocks.get? hash

def blockByNumber? (c : Chain) (number : UInt64) : Option Block :=
  c.canonical[number.toNat]?.bind c.blocks.get?

/-- Cuts the index to `length` entries or fills it up with zero hashes. -/
def resize (index : Array Hash) (length : Nat) : Array Hash :=
  if length ≤ index.size then index.extract 0 length
  else index ++ Array.replicate (length - index.size) Hash.zero

/-- Writes a hash at a height and its ancestors below, down to the first entry
that is already right. -/
def relink (blocks : Table Hash Block) : Nat → Hash → Array Hash → Array Hash
  | height, cursor, index =>
    if index[height]? = some cursor then index else
      let index := index.setIfInBounds height cursor
      match height with
      | 0 => index
      | below + 1 =>
        match blocks.get? cursor with
        | some block => relink blocks below block.parentHash index
        | none => index

def setBest (c : Chain) (hash : Hash) (number : UInt64) : Chain :=
  { c with
    best := hash
    canonical := relink c.blocks number.toNat hash (resize c.canonical (number.toNat + 1)) }

/-- Connects a block below a stored parent; `none` if the parent is not stored. -/
def connect (c : Chain) (block : Block) : Option (ImportResult × Chain) :=
  match c.totals.get? block.parentHash, c.blocks.get? block.parentHash with
  | some parentTotal, some parent =>
    if block.number ≠ parent.number + 1 then some (.invalid, c)
    else
      let hash := block.hash
      let total := parentTotal + block.header.difficulty
      let grown := { c with blocks := c.blocks.insert hash block, totals := c.totals.insert hash total }
      if total > grown.total then some (.importedBest, grown.setBest hash block.number)
      else some (.importedNotBest, grown)
  | _, _ => none

theorem pending_of_connect {c d : Chain} {block : Block} {result : ImportResult}
    (h : c.connect block = some (result, d)) : d.pending = c.pending := by
  unfold connect at h
  split at h
  · split at h
    · cases h; rfl
    · dsimp only at h
      split at h <;> cases h <;> rfl
  · cases h

/-- Connects one waiting child, unless it is stored, and notes its hash. -/
def connectChild (state : Chain × List Hash) (child : Block) : Chain × List Hash :=
  let hash := child.hash
  if state.1.blocks.contains hash then state
  else
    match state.1.connect child with
    | some (result, c) => if result.isImported then (c, hash :: state.2) else (c, state.2)
    | none => state

theorem pending_connectChild (state : Chain × List Hash) (child : Block) :
    (connectChild state child).1.pending = state.1.pending := by
  unfold connectChild
  dsimp only
  split
  · rfl
  · split
    · rename_i result c h
      split <;> exact pending_of_connect h
    · rfl

theorem pending_foldl_connectChild (children : List Block) (state : Chain × List Hash) :
    (children.foldl connectChild state).1.pending = state.1.pending := by
  induction children generalizing state with
  | nil => rfl
  | cons child rest ih => rw [List.foldl_cons, ih, pending_connectChild]

def release (c : Chain) (parent : Hash) (children : List Block) : Chain :=
  { c with pending := c.pending.erase parent, pendingCount := c.pendingCount - children.length }

/-- Connects the waiting descendants of the hashes on a stack, children of one
parent in the order they came, and counts them. -/
def drain (c : Chain) : List Hash → Nat × Chain
  | [] => (0, c)
  | parent :: stack =>
    match h : c.pending.get? parent with
    | none => drain c stack
    | some children =>
      let next := children.foldl connectChild (c.release parent children, [])
      have : next.1.pending.size < c.pending.size := by
        have hp : next.1.pending = c.pending.erase parent := pending_foldl_connectChild _ _
        rw [hp]
        exact Table.size_erase_lt h
      let (connected, c) := drain next.1 (next.2 ++ stack)
      (next.2.length + connected, c)
  termination_by stack => (c.pending.size, stack.length)

/-- Keeps a block for later, once. Says whether there was room. -/
def storePending (c : Chain) (block : Block) : Bool × Chain :=
  if c.pendingCount ≥ c.config.maxPendingBlocks then (false, c)
  else
    let siblings := (c.pending.get? block.parentHash).getD []
    let hash := block.hash
    if siblings.any (fun b => b.hash = hash) then (true, c)
    else
      (true, { c with pending := c.pending.insert block.parentHash (siblings ++ [block])
                      pendingCount := c.pendingCount + 1 })

/-- Offers a block: connects it and what waits for it, or keeps it for later. -/
def offer (c : Chain) (block : Block) : ImportResult × Chain :=
  if c.blocks.contains block.hash then (.alreadyKnown, c)
  else
    match c.connect block with
    | none =>
      match c.storePending block with
      | (true, c) => (.storedForLater, c)
      | (false, c) => (.noParent, c)
    | some (result, c) =>
      if result.isImported then (result, (c.drain [block.hash]).2) else (result, c)

def offerAll (c : Chain) (blocks : List Block) : Chain :=
  blocks.foldl (fun c b => (c.offer b).2) c

/-- Keeps blocks far ahead of the best one for later, but connects those whose
parent is stored. Ends at the first block without room, and counts the kept ones,
the ones that were already waiting among them. -/
def storeRange (c : Chain) : List Block → Nat × Chain
  | [] => (0, c)
  | block :: rest =>
    let hash := block.hash
    if c.blocks.contains hash then storeRange c rest
    else if c.totals.contains block.parentHash then
      match c.connect block with
      | some (result, c) =>
        if result.isImported then storeRange (c.drain [hash]).2 rest else storeRange c rest
      | none => storeRange c rest
    else
      match c.storePending block with
      | (true, c) =>
        let (stored, c) := storeRange c rest
        (stored + 1, c)
      | (false, c) => (0, c)

def blockCount (c : Chain) : Nat :=
  c.blocks.size

end Chain

end BlockSync
