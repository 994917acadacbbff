import BlockSync.Proofs.Sync.Progress

/-! Forks. A client asks for what follows its own best number, whatever branch its best
block is on. So a heavier server brings it over only if the client already holds the
server's canonical block at that height. If it does not, none of the blocks that come finds
its parent, and all that is connected stays as it was. -/
namespace BlockSync

namespace Link

open Synchronizer

/-- The server's chain is the heavier one, and the client accepts its canonical blocks above
the height of its own best block. The client's blocks can be counted. -/
structure Forked (genesis : Block) (l : Link) : Prop extends l.Related genesis where
  client_countable : l.client.chain.blockCount < 2 ^ 64
  heavier : l.client.chain.total < l.server.chain.total
  honest : ∀ number block, l.client.chain.bestNumber < number →
    l.server.chain.blockByNumber? number = some block →
    l.client.validate block.header = .ok () ∧ block.body.root = block.header.txRoot

/-- Besides, all blocks weigh something, no total wraps, and the client's best block is not a
canonical block of the server. -/
structure Lighter (genesis : Block) (l : Link) : Prop extends l.Forked genesis where
  positive : ∀ c, c = l.server.chain ∨ c = l.client.chain → ∀ hash block,
    c.blockByHash? hash = some block → 1 ≤ block.header.difficulty
  unwrapped : ∀ c, c = l.server.chain ∨ c = l.client.chain → ∀ hash block total,
    c.blockByHash? hash = some block → c.total? block.parentHash = some total →
    total.toNat + block.header.difficulty.toNat < 2 ^ 256
  strayed : ∀ number block, l.server.chain.blockByNumber? number = some block →
    block.hash ≠ l.client.chain.best

/-- The client has the server's canonical block at the height of its own best block, but lacks
one of the canonical blocks that it asks for. -/
def Joins (l : Link) (take : UInt32) : Prop :=
  (∃ tip other, l.server.chain.blockByNumber? l.client.chain.bestNumber = some tip ∧
    l.client.chain.blockByHash? tip.hash = some other) ∧
  ∃ (place : UInt64) (block : Block), l.client.chain.bestNumber < place ∧
    place.toNat ≤ l.client.chain.bestNumber.toNat + l.reach take ∧
    l.server.chain.blockByNumber? place = some block ∧
    l.client.chain.blockByHash? block.hash = none

/-- The exchange connects a canonical block of the server that the client lacked. -/
def Gains (l : Link) : Prop :=
  ∃ (place : UInt64) (block other : Block), l.server.chain.blockByNumber? place = some block ∧
    l.client.chain.blockByHash? block.hash = none ∧
    l.exchange.client.chain.blockByHash? block.hash = some other

variable {genesis tip : Block} {l : Link} {take : UInt32}

/-- The offered blocks of which the client does not know that it has them. -/
def lacking (l : Link) (take : UInt32) : List Block :=
  (l.offered take).filter fun block => !l.client.isImported block.hash

theorem Forked.room (h : l.Forked genesis) : l.client.chain.bestNumber.toNat + 1 < 2 ^ 64 :=
  h.client_sound.ledger.bestNumber_lt h.start h.client_countable

theorem Forked.nothing_offered (h : l.Forked genesis) (take : UInt32)
    (absent : l.server.chain.blockByNumber? l.client.chain.bestNumber = none) :
    l.offered take = [] ∧ l.reach take = 0 := by
  have beyond : l.server.chain.bestNumber < l.client.chain.bestNumber := by
    by_contra inside
    obtain ⟨block, named, -⟩ := h.index.named (UInt64.not_lt.1 inside)
    rw [absent] at named
    cases named
  have next := toNat_add_one h.room
  have past := UInt64.lt_iff_toNat_lt.1 beyond
  have above : l.server.chain.blockByNumber? (l.client.chain.bestNumber + 1) = none := by
    apply h.index.above
    rw [UInt64.lt_iff_toNat_lt]
    omega
  constructor
  · unfold offered servedBlocks
    cases min (min take.toNat maxServed)
      (UInt64.size - 1 - (l.client.chain.bestNumber + 1).toNat) with
    | zero => rfl
    | succ count => simp [Chain.canonicalFrom, above]
  · unfold reach
    omega

theorem Forked.members (h : l.Forked genesis) (block : Block) :
    block ∈ l.offered take ↔ ∃ place : UInt64, l.client.chain.bestNumber < place ∧
      place.toNat ≤ l.client.chain.bestNumber.toNat + l.reach take ∧
        l.server.chain.blockByNumber? place = some block := by
  cases named : l.server.chain.blockByNumber? l.client.chain.bestNumber with
  | some tip => exact (h.offered_spec named take).2.2 block
  | none =>
    obtain ⟨offered, reach⟩ := h.nothing_offered take named
    rw [offered, reach]
    constructor
    · intro member
      cases member
    · rintro ⟨place, above, below, -⟩
      have strict := UInt64.lt_iff_toNat_lt.1 above
      omega

theorem Forked.passed (h : l.Forked genesis) :
    screen l.client.validate l.client.isImported
      (servedHeaders l.server.chain (l.client.chain.bestNumber + 1) take) =
        .ok ((l.lacking take).map Block.header) := by
  have shown : servedHeaders l.server.chain (l.client.chain.bestNumber + 1) take =
      (l.offered take).map Block.header := servedHeaders_eq _ _ _
  rw [shown]
  cases named : l.server.chain.blockByNumber? l.client.chain.bestNumber with
  | none =>
    rw [lacking, (h.nothing_offered take named).1]
    rfl
  | some tip =>
    apply (h.offered_spec named take).1.screen_eq
    intro block member
    obtain ⟨place, above, -, canonical⟩ := (h.members block).1 member
    exact (h.honest place block above canonical).1

theorem Forked.chain_exchange (h : l.Forked genesis) (quiet : l.Quiet) (asked : l.Asks take) :
    l.exchange.client.chain = (l.client.intake.importBlocks (l.lacking take)).1.chain := by
  have sub : (l.lacking take).Sublist (l.offered take) := List.filter_sublist
  have canonical : ∀ block ∈ l.lacking take, ∃ place : UInt64, l.client.chain.bestNumber < place ∧
      place.toNat ≤ l.client.chain.bestNumber.toNat + l.reach take ∧
        l.server.chain.blockByNumber? place = some block := by
    intro block member
    exact (h.members block).1 (sub.subset member)
  have few := l.reach_le_maxServed take
  apply quiet.chain_exchange asked h.passed
  · refine Nat.le_trans sub.length_le ?_
    cases named : l.server.chain.blockByNumber? l.client.chain.bestNumber with
    | none => simp [(h.nothing_offered take named).1]
    | some tip => rwa [(h.offered_spec named take).2.1]
  · intro block member
    exact h.stored block (sub.subset member)
  · intro block member
    obtain ⟨place, above, -, named⟩ := canonical block member
    exact (h.honest place block above named).2
  · intro block member
    obtain ⟨place, above, -, named⟩ := canonical block member
    rw [(h.index.stored named).2]
    exact UInt64.lt_iff_toNat_lt.1 above
  · intro block member
    obtain ⟨place, -, below, named⟩ := canonical block member
    rw [(h.index.stored named).2]
    omega

theorem Related.header_of_held (h : l.Related genesis) {block other : Block} {place : UInt64}
    (named : l.server.chain.blockByNumber? place = some block)
    (held : l.client.chain.blockByHash? block.hash = some other) : other.header = block.header := by
  have own := h.client_sound.ledger.own_hash _ _ held
  have stored : l.client.chain.blockByHash? other.hash = some other := by
    rw [own]
    exact held
  exact (h.alike block other (h.index.stored named).1 (.inl stored) own.symm).symm

/-- Nothing that follows on an absent block is there, nor are the parents. -/
theorem Related.absent_of_follows (h : l.Related genesis) {hash : Hash} {number : UInt64}
    {blocks : List Block} (follows : Follows hash number blocks)
    (canonical : ∀ block ∈ blocks, ∃ place, l.server.chain.blockByNumber? place = some block)
    (absent : l.client.chain.blockByHash? hash = none) :
    ∀ block ∈ blocks, l.client.chain.blockByHash? block.parentHash = none := by
  induction blocks generalizing hash number with
  | nil => simp
  | cons first rest ih =>
    obtain ⟨link, count, later⟩ := follows
    have ledger : l.client.chain.Ledger genesis := h.client_sound.ledger
    have orphan : l.client.chain.blockByHash? first.parentHash = none := by
      rw [link]
      exact absent
    have missing : l.client.chain.blockByHash? first.hash = none := by
      cases held : l.client.chain.blockByHash? first.hash with
      | none => rfl
      | some other =>
        obtain ⟨place, named⟩ := canonical first List.mem_cons_self
        have header := h.header_of_held named held
        have apart : first.hash ≠ genesis.hash := by
          intro same
          rw [same, Chain.blockByHash?, ledger.genesis_stored] at held
          cases held
          have number : genesis.number = first.number := congrArg Header.number header
          rw [← number, h.start, UInt64.toNat_zero] at count
          omega
        obtain ⟨parent, total, above, -⟩ := ledger.extends_parent _ other held apart
        have upward : other.parentHash = first.parentHash := congrArg Header.parentHash header
        rw [Chain.blockByHash?, ← upward, above] at orphan
        cases orphan
    rintro block (_ | ⟨_, member⟩)
    · exact orphan
    · exact ih later (fun block inside => canonical block (List.mem_cons_of_mem _ inside)) missing
        block member

theorem Forked.unchanged (h : l.Forked genesis) (quiet : l.Quiet) (asked : l.Asks take)
    (idle : ∀ block ∈ l.offered take,
      (∃ other, l.client.chain.blockByHash? block.hash = some other) ∨
        l.client.chain.blockByHash? block.parentHash = none) :
    l.exchange.client.chain.blocks = l.client.chain.blocks := by
  rw [h.chain_exchange quiet asked]
  apply h.client_sound.import_orphans
  intro block member
  exact idle block (List.mem_of_mem_filter member)

/-- Without the server's canonical block at its own height the client connects nothing. -/
theorem Forked.unchanged_of_apart (h : l.Forked genesis) (quiet : l.Quiet) (asked : l.Asks take)
    (apart : ∀ tip, l.server.chain.blockByNumber? l.client.chain.bestNumber = some tip →
      l.client.chain.blockByHash? tip.hash = none) :
    l.exchange.client.chain.blocks = l.client.chain.blocks := by
  apply h.unchanged quiet asked
  intro block member
  right
  cases named : l.server.chain.blockByNumber? l.client.chain.bestNumber with
  | none =>
    rw [(h.nothing_offered take named).1] at member
    cases member
  | some tip =>
    refine h.absent_of_follows (h.offered_spec named take).1 ?_ (apart tip named) block member
    intro other listed
    obtain ⟨place, -, -, canonical⟩ := (h.members other).1 listed
    exact ⟨place, canonical⟩

/-- With it the client connects all that it asked for. -/
theorem Forked.connected_of_joined (h : l.Forked genesis) (quiet : l.Quiet) (asked : l.Asks take)
    {other : Block} (named : l.server.chain.blockByNumber? l.client.chain.bestNumber = some tip)
    (held : l.client.chain.blockByHash? tip.hash = some other) :
    ∀ block ∈ l.offered take, ∃ stored,
      l.exchange.client.chain.blockByHash? block.hash = some stored ∧
        stored.header = block.header := by
  have number : other.number = l.client.chain.bestNumber := by
    rw [← (h.index.stored named).2]
    exact congrArg Header.number (h.header_of_held named held)
  have alike : ∀ block ∈ l.offered take, ∀ other, other = genesis ∨ l.Known take other →
      other.hash = block.hash → other.header = block.header := by
    intro block member other known same
    exact (h.header_eq (h.stored block member) known same.symm).symm
  obtain ⟨sound, origin, -, connected⟩ := h.client_sound.import_follows (h.origin take) .zero
    (fun block member => .inr member) alike held number (h.offered_spec named take).1
    l.client.isImported fun block _ known => h.client_sound.cached _ known
  rw [h.chain_exchange quiet asked]
  intro block member
  obtain ⟨stored, found⟩ := connected block member
  exact ⟨stored, found, alike block member stored (origin.stored _ _ found)
    (sound.ledger.own_hash _ _ found)⟩

/-- An undisturbed exchange with a heavier server connects a canonical block that the client
lacked exactly if the client has the server's canonical block at the height of its own best
block and lacks one of those that it asks for. Then it gets all of them, and otherwise nothing
is connected. -/
theorem exchange_of_forks (forked : l.Forked genesis) (quiet : l.Quiet) :
    ∃ take ∈ requestSizes, l.Asks take ∧ (l.Gains ↔ l.Joins take) ∧
      (l.Joins take → ∀ (place : UInt64) (block : Block), l.client.chain.bestNumber < place →
        place.toNat ≤ l.client.chain.bestNumber.toNat + l.reach take →
        l.server.chain.blockByNumber? place = some block →
        ∃ other, l.exchange.client.chain.blockByHash? block.hash = some other ∧
          other.header = block.header) ∧
      (¬ l.Joins take → l.exchange.client.chain.blocks = l.client.chain.blocks) := by
  obtain ⟨take, size, asked⟩ := quiet.asked forked.heavier forked.room
  have brought (joins : l.Joins take) (place : UInt64) (block : Block)
      (above : l.client.chain.bestNumber < place)
      (below : place.toNat ≤ l.client.chain.bestNumber.toNat + l.reach take)
      (named : l.server.chain.blockByNumber? place = some block) :
      ∃ other, l.exchange.client.chain.blockByHash? block.hash = some other ∧
        other.header = block.header := by
    obtain ⟨⟨tip, other, base, held⟩, -⟩ := joins
    apply forked.connected_of_joined quiet asked base held
    exact (forked.members block).2 ⟨place, above, below, named⟩
  have still (apart : ¬ l.Joins take) :
      l.exchange.client.chain.blocks = l.client.chain.blocks := by
    by_cases base : ∃ tip other, l.server.chain.blockByNumber? l.client.chain.bestNumber = some tip ∧
        l.client.chain.blockByHash? tip.hash = some other
    · -- all that is asked for is there already
      apply forked.unchanged quiet asked
      intro block member
      obtain ⟨place, above, below, named⟩ := (forked.members block).1 member
      left
      cases held : l.client.chain.blockByHash? block.hash with
      | none => exact absurd ⟨base, place, block, above, below, named, held⟩ apart
      | some other => exact ⟨other, rfl⟩
    · apply forked.unchanged_of_apart quiet asked
      intro tip named
      cases held : l.client.chain.blockByHash? tip.hash with
      | none => rfl
      | some other => exact absurd ⟨tip, other, named, held⟩ base
  refine ⟨take, size, asked, ⟨?_, ?_⟩, brought, still⟩
  · rintro ⟨place, block, other, named, missing, held⟩
    by_contra apart
    rw [Chain.blockByHash?, still apart, ← Chain.blockByHash?, missing] at held
    cases held
  · intro joins
    obtain ⟨-, place, block, above, below, named, missing⟩ := id joins
    obtain ⟨other, held, -⟩ := brought joins place block above below named
    exact ⟨place, block, other, named, missing, held⟩

end Link

/-! A server with two blocks above the genesis block, and clients that went another way. -/
namespace Chain.Split
open Fork (child parentHash_child)

def root : Block := ⟨{ Header.empty with difficulty := 1 }, ⟨[]⟩⟩

def left : Block := child root 1

def tip : Block := child left 1

def right : Block := ⟨{ (child root 1).header with timestamp := 1 }, ⟨[]⟩⟩

theorem links : left.parentHash = root.hash ∧ tip.parentHash = left.hash ∧
    right.parentHash = root.hash :=
  ⟨parentHash_child root 1, parentHash_child left 1, parentHash_child root 1⟩

theorem hashes_apart : ([root, left, tip, right].map Block.hash ++ [Hash.zero]).Nodup := by
  decide +kernel

theorem apart : root.hash ≠ left.hash ∧ root.hash ≠ tip.hash ∧ root.hash ≠ right.hash ∧
    left.hash ≠ tip.hash ∧ left.hash ≠ right.hash ∧ tip.hash ≠ right.hash := by
  have listed := (List.nodup_append.1 hashes_apart).1
  rw [List.map_cons, List.map_cons, List.map_cons, List.map_cons, List.map_nil] at listed
  generalize root.hash = a, left.hash = b, tip.hash = c, right.hash = d at listed
  simp at listed
  tauto

theorem eq_of_hash {one other : Block} (first : one ∈ [root, left, tip, right])
    (second : other ∈ [root, left, tip, right]) (same : one.hash = other.hash) : one = other :=
  List.inj_on_of_nodup_map (List.nodup_append.1 hashes_apart).1 first second same

theorem known_of_history {deliveries : List Delivery} {hash : Hash} {block : Block}
    (inside : deliveries.flatMap Delivery.blocks ⊆ [root, left, tip, right])
    (held : (history root {} deliveries).blockByHash? hash = some block ∨
      block ∈ (history root {} deliveries).waiting) : block ∈ [root, left, tip, right] := by
  have origin := (waits_history root {} deliveries).2
  have handed (came : ∃ delivery ∈ deliveries, block ∈ delivery.blocks) :
      block ∈ [root, left, tip, right] := inside (List.mem_flatMap.2 came)
  rcases held with stored | waits
  · rcases origin.stored _ _ stored with rfl | came
    · exact List.mem_cons_self
    · exact handed came
  · exact handed (origin.waiting _ waits)

theorem fits_root {block : Block} (link : block.parentHash = root.hash) (number : block.number = 1)
    (apart : root.hash ≠ block.hash) :
    (Chain.new root {}).Fits block root root.header.difficulty := by
  have ledger := ledger_new root {}
  refine ⟨?_, ?_, ?_, number⟩
  · rw [blocks_new, if_neg apart]
  · rw [link]
    exact ledger.genesis_stored
  · rw [link]
    exact ledger.genesis_total

theorem history_one {block : Block} (link : block.parentHash = root.hash)
    (number : block.number = 1) (weight : block.header.difficulty = 1)
    (apart : root.hash ≠ block.hash) :
    history root {} [.block block] = (Chain.new root {}).attach block 2 ∧
      (history root {} [.block block]).best = block.hash ∧
      (history root {} [.block block]).total = 2 := by
  have ledger := ledger_new root {}
  have fits := fits_root link number apart
  have sum : root.header.difficulty + block.header.difficulty = 2 := by
    rw [weight]
    rfl
  have grown : history root {} [.block block] = (Chain.new root {}).attach block 2 := by
    rw [history_block, ledger.offer_fits fits rfl, sum]
  have base : (Chain.new root {}).total = 1 := total_new root {}
  rw [grown, ledger.best_attach fits.fresh, ledger.total_attach fits.fresh, base]
  exact ⟨rfl, rfl, rfl⟩

variable {served : Chain} (grown : served = history root {} [.block left, .block tip])

include grown in
theorem served_head : served.best = tip.hash ∧ served.bestNumber = 2 ∧ served.total = 3 := by
  obtain ⟨rl, rt, -, lt, -, -⟩ := apart
  obtain ⟨only, -, total⟩ := @history_one left links.1 rfl rfl rl
  have ledger := ledger_history root {} [.block left]
  have last : served = ((history root {} [.block left]).offer tip).2 :=
    grown.trans (history_concat_block root {} [.block left] tip)
  generalize history root {} [.block left] = c at only total ledger last
  have fits : c.Fits tip left 2 := by
    refine ⟨?_, ?_, ?_, rfl⟩
    · rw [only, blocks_attach, Table.get?_insert, if_neg lt, blocks_new, if_neg rt]
    · rw [only, links.2.1]
      exact get?_attach_self _ _ _
    · rw [only, totals_attach, links.2.1, Table.get?_insert, if_pos rfl]
  have alone : c.pending.get? tip.hash = none := by
    rw [only, pending_attach]
    rfl
  have sum : (2 : Difficulty) + tip.header.difficulty = 3 := rfl
  rw [ledger.offer_fits fits alone, sum] at last
  have best : served.best = tip.hash := by
    rw [last, ledger.best_attach fits.fresh, total]
    rfl
  refine ⟨best, ?_, ?_⟩
  · have stored : served.blocks.get? served.best = some tip := by
      rw [best, last]
      exact get?_attach_self _ _ _
    exact bestNumber_eq stored
  · rw [last, ledger.total_attach fits.fresh, total]
    rfl

/-- The block to the right came first, so it stays the best one when the left one comes. -/
theorem joined_head : (history root {} [.block right, .block left]).best = right.hash ∧
    (history root {} [.block right, .block left]).total = 2 ∧
    (history root {} [.block right, .block left]).blocks.get? right.hash = some right ∧
    (history root {} [.block right, .block left]).blockByHash? left.hash = some left ∧
    (history root {} [.block right, .block left]).blockByHash? tip.hash = none := by
  obtain ⟨rl, rt, rr, lt, lr, tr⟩ := apart
  obtain ⟨grown, best, total⟩ := @history_one right links.2.2 rfl rfl rr
  have ledger := ledger_history root {} [.block right]
  have last : history root {} [.block right, .block left] =
    ((history root {} [.block right]).offer left).2 :=
      history_concat_block root {} [.block right] left
  generalize history root {} [.block right] = c at grown best total ledger last
  have fits : c.Fits left root 1 := by
    refine ⟨?_, ?_, ?_, rfl⟩
    · rw [grown, blocks_attach, Table.get?_insert, if_neg (Ne.symm lr), blocks_new, if_neg rl]
    · rw [links.1]
      exact ledger.genesis_stored
    · rw [links.1]
      exact ledger.genesis_total
  have alone : c.pending.get? left.hash = none := by
    rw [grown, pending_attach]
    rfl
  have sum : (1 : Difficulty) + left.header.difficulty = 2 := rfl
  have level : ¬ ((2 : Difficulty) < 2) := by decide
  rw [ledger.offer_fits fits alone, sum] at last
  rw [last, ledger.best_attach fits.fresh, ledger.total_attach fits.fresh, total, if_neg level,
    if_neg level]
  refine ⟨best, rfl, ?_, get?_attach_self _ _ _, ?_⟩
  · rw [blocks_attach, Table.get?_insert, if_neg lr, grown]
    exact get?_attach_self _ _ _
  · rw [blockByHash?, blocks_attach, Table.get?_insert, if_neg lt, grown, blocks_attach,
      Table.get?_insert, if_neg (Ne.symm tr), blocks_new, if_neg rt]

/-- What is asked of a client's chain: its best block is the one to the right. -/
structure Strays (deliveries : List Delivery) : Prop where
  inside : deliveries.flatMap Delivery.blocks ⊆ [root, left, tip, right]
  best : (history root {} deliveries).best = right.hash
  number : (history root {} deliveries).bestNumber = 1
  total : (history root {} deliveries).total = 2
  countable : (history root {} deliveries).blockCount < 2 ^ 64

theorem strays_right : Strays [.block right] := by
  obtain ⟨grown, best, total⟩ := @history_one right links.2.2 rfl rfl apart.2.2.1
  refine ⟨by simp [Delivery.blocks], best, ?_, total, ?_⟩
  · have stored : (history root {} [.block right]).blocks.get?
        (history root {} [.block right]).best = some right := by
      rw [best, grown]
      exact get?_attach_self _ _ _
    exact bestNumber_eq stored
  · exact Nat.lt_of_le_of_lt (blockCount_history_le _ _ _) (by decide)

theorem strays_joined : Strays [.block right, .block left] := by
  obtain ⟨best, total, stored, -, -⟩ := joined_head
  refine ⟨by simp [Delivery.blocks], best, ?_, total, ?_⟩
  · rw [← best] at stored
    exact bestNumber_eq stored
  · exact Nat.lt_of_le_of_lt (blockCount_history_le _ _ _) (by decide)

def server : PeerInfo :=
  ⟨⟨1⟩, .v4 0 0, .outbound, ⟨2, tip.hash, 3⟩, 0⟩

/-- A client that was handed some blocks, connected to the server with the left branch. -/
def link (served : Chain) (deliveries : List Delivery) : Link where
  client := { Synchronizer.new {} (fun _ => .ok ()) (history root {} deliveries) 0 with
    network := ⟨[server], 1, 0, fun _ => true⟩ }
  server := .new {} (fun _ => .ok ()) served 0
  clientId := NodeId.peerId ⟨0⟩
  clientName := "client"
  serverId := server.peer
  serverName := "server"

theorem chain_link (served : Chain) (deliveries : List Delivery) :
    (link served deliveries).client.chain = history root {} deliveries :=
  rfl

include grown in
theorem served_stored {hash : Hash} {block : Block} (stored : served.blockByHash? hash = some block) :
    block.hash = hash ∧ (block = root ∨ block = left ∨ block = tip) := by
  rw [grown] at stored
  refine ⟨(ledger_history root {} [.block left, .block tip]).own_hash _ _ stored, ?_⟩
  rcases (waits_history root {} [.block left, .block tip]).2.stored _ _ stored with rfl | came
  · exact .inl rfl
  · right
    have handed : block ∈ [left, tip] := List.mem_flatMap.2 came
    simpa using handed

variable {deliveries : List Delivery}

include grown in
theorem Strays.related (h : Strays deliveries) : (link served deliveries).Related root where
  start := rfl
  client_reached := .step (.new {} (fun _ => .ok ()) {} deliveries 0) (.surroundings _ _ _)
  server_reached := ⟨{}, [.block left, .block tip], grown⟩
  countable := by
    change served.blockCount < 2 ^ 64
    rw [grown]
    exact Nat.lt_of_le_of_lt (blockCount_history_le _ _ _) (by decide)
  nonzero := by
    have nonzero := (List.nodup_append.1 hashes_apart).2.2
    change served.blockByHash? .zero = none
    cases stored : served.blockByHash? .zero with
    | none => rfl
    | some block =>
      have listed : block ∈ [root, left, tip, right] := by
        obtain ⟨-, rfl | rfl | rfl⟩ := served_stored grown stored <;> simp
      exact absurd (served_stored grown stored).1
        (nonzero _ (List.mem_map_of_mem listed) _ List.mem_cons_self)
  alike one other ours theirs same := by
    have first : one ∈ [root, left, tip, right] := by
      obtain ⟨-, rfl | rfl | rfl⟩ := served_stored grown ours <;> simp
    rw [eq_of_hash first (known_of_history h.inside theirs) same]

theorem Strays.best_link (h : Strays deliveries) :
    (link served deliveries).client.chain.bestNumber = 1 ∧ (link served deliveries).client.chain.total = 2 ∧
      (link served deliveries).client.chain.best = right.hash :=
  ⟨h.number, h.total, h.best⟩

include grown in
theorem Strays.named (h : Strays deliveries) :
    served.blockByNumber? 1 = some left ∧ served.blockByNumber? 2 = some tip := by
  have index : served.CanonicalIndex root := (h.related grown).index
  have below : (1 : UInt64) ≤ served.bestNumber ∧ (2 : UInt64) ≤ served.bestNumber := by
    rw [(served_head grown).2.1]
    decide
  obtain ⟨one, first, -, stored, number⟩ := index.named below.1
  obtain ⟨two, second, -, stored', number'⟩ := index.named below.2
  rw [first, second]
  obtain ⟨-, rfl | rfl | rfl⟩ := served_stored grown stored
  · exact absurd number (by decide)
  · obtain ⟨-, rfl | rfl | rfl⟩ := served_stored grown stored'
    · exact absurd number' (by decide)
    · exact absurd number' (by decide)
    · exact ⟨rfl, rfl⟩
  · exact absurd number (by decide)

include grown in
theorem Strays.forked (h : Strays deliveries) : (link served deliveries).Forked root where
  toRelated := h.related grown
  client_countable := h.countable
  heavier := by
    rw [h.best_link.2.1]
    change 2 < served.total
    rw [(served_head grown).2.2]
    decide
  honest number block above named := by
    rw [h.best_link.1] at above
    obtain ⟨stored, own⟩ := (h.related grown).index.stored named
    refine ⟨rfl, ?_⟩
    obtain ⟨-, rfl | rfl | rfl⟩ := served_stored grown stored
    · rw [← own] at above
      exact absurd above (by decide)
    · rfl
    · rfl

include grown in
theorem Strays.offered (h : Strays deliveries) (take : UInt32) :
    (link served deliveries).offered take = [] ∨ (link served deliveries).offered take = [tip] := by
  have related := h.related grown
  have base : (link served deliveries).server.chain.blockByNumber?
      (link served deliveries).client.chain.bestNumber = some left := by
    rw [h.best_link.1]
    exact (h.named grown).1
  obtain ⟨-, length, members⟩ := related.offered_spec base take
  have few : (link served deliveries).reach take ≤ 1 := by
    unfold Link.reach
    rw [h.best_link.1, show (link served deliveries).server.chain = served from rfl,
      (served_head grown).2.1]
    exact Nat.min_le_right _ _
  have all : ∀ block ∈ (link served deliveries).offered take, block = tip := by
    intro block member
    obtain ⟨place, above, -, named⟩ := (members block).1 member
    obtain ⟨stored, own⟩ := related.index.stored named
    rw [h.best_link.1, ← own] at above
    obtain ⟨-, rfl | rfl | rfl⟩ := served_stored grown stored
    · exact absurd above (by decide)
    · exact absurd above (by decide)
    · rfl
  cases offered : (link served deliveries).offered take with
  | nil => exact .inl rfl
  | cons block rest =>
    rw [offered] at length all
    rw [List.length_cons] at length
    obtain rfl : rest = [] := List.eq_nil_of_length_eq_zero (by omega)
    exact .inr (by rw [all block List.mem_cons_self])

include grown in
theorem Strays.quiet (h : Strays deliveries) : (link served deliveries).Quiet where
  server_sends := rfl
  client_sends := rfl
  bodies_idle := rfl
  imports_idle := rfl
  peers_distinct := List.nodup_singleton _
  on_record := ⟨server, List.mem_cons_self, rfl, (served_head grown).2.2.symm⟩
  nothing_owed := rfl
  headers_fit take _ := by
    have headers : Synchronizer.servedHeaders (link served deliveries).server.chain
        ((link served deliveries).client.chain.bestNumber + 1) take =
          ((link served deliveries).offered take).map Block.header :=
      Synchronizer.servedHeaders_eq _ _ take
    rw [headers]
    rcases h.offered grown take with offered | offered <;> rw [offered]
    · exact Message.fits_of_short (by decide)
    · exact Fork.header_fits_child left 1
  bodies_fit take fresh _ screened := by
    rw [(h.forked grown).passed] at screened
    cases screened
    have sub : ((link served deliveries).lacking take).Sublist
        ((link served deliveries).offered take) := List.filter_sublist
    have lacks : (link served deliveries).lacking take = [] ∨
        (link served deliveries).lacking take = [tip] := by
      rcases h.offered grown take with offered | offered <;> rw [offered] at sub
      · exact .inl (List.sublist_nil.1 sub)
      · exact List.sublist_singleton.1 sub
    have hashes : (((link served deliveries).lacking take).map Block.header).map Header.hash =
        ((link served deliveries).lacking take).map Block.hash := List.map_map
    rw [hashes]
    rcases lacks with none_new | one_new
    · have bodies : Synchronizer.servedBodies (link served deliveries).server.chain
          (([] : List Block).map Block.hash) = [] := rfl
      rw [none_new, bodies]
      exact Message.fits_of_short (by decide)
    · have stored : ∀ block ∈ [tip], served.blockByHash? block.hash = some block := by
        intro block member
        rw [List.mem_singleton.1 member]
        exact ((h.related grown).index.stored (h.named grown).2).1
      have bodies : Synchronizer.servedBodies (link served deliveries).server.chain
          ([tip].map Block.hash) = [tip.body.encode] :=
        Synchronizer.servedBodies_hashes (by decide) stored
      rw [one_new, bodies]
      exact Fork.body_fits_child left 1

theorem weight_of_mem {block : Block} (member : block ∈ [root, left, tip, right]) :
    block.header.difficulty = 1 := by
  simp only [List.mem_cons, List.not_mem_nil, or_false] at member
  obtain rfl | rfl | rfl | rfl := member <;> rfl

include grown in
theorem Strays.known (h : Strays deliveries) {c : Chain} {hash : Hash} {block : Block}
    (side : c = (link served deliveries).server.chain ∨ c = (link served deliveries).client.chain)
    (stored : c.blockByHash? hash = some block) : block ∈ [root, left, tip, right] := by
  rcases side with same | same <;> rw [same] at stored
  · obtain ⟨-, rfl | rfl | rfl⟩ := served_stored grown stored <;> simp
  · exact known_of_history h.inside (.inl stored)

include grown in
theorem Strays.total_le (h : Strays deliveries) {c : Chain} {hash : Hash} {total : Difficulty}
    (side : c = (link served deliveries).server.chain ∨ c = (link served deliveries).client.chain)
    (recorded : c.total? hash = some total) : total ≤ 3 := by
  rcases side with same | same <;> rw [same] at recorded
  · have heaviest := (h.related grown).server_ledger.best_heaviest hash total recorded
    rwa [show (link served deliveries).server.chain = served from rfl, (served_head grown).2.2]
      at heaviest
  · have heaviest : total ≤ (link served deliveries).client.chain.total :=
      (h.related grown).client_sound.ledger.best_heaviest hash total recorded
    rw [h.best_link.2.1] at heaviest
    exact BitVec.le_trans heaviest (by decide)

include grown in
theorem Strays.lighter (h : Strays deliveries) : (link served deliveries).Lighter root where
  toForked := h.forked grown
  positive c side hash block stored := by
    rw [weight_of_mem (h.known grown side stored)]
    exact BitVec.le_refl 1
  unwrapped c side hash block total stored recorded := by
    have bound := BitVec.le_def.1 (h.total_le grown side recorded)
    have three : (3 : Difficulty).toNat = 3 := rfl
    have one : (1 : Difficulty).toNat = 1 := rfl
    rw [weight_of_mem (h.known grown side stored), one]
    omega
  strayed number block named := by
    obtain ⟨-, -, rr, -, lr, tr⟩ := apart
    rw [h.best_link.2.2]
    obtain ⟨stored, -⟩ := (h.related grown).index.stored named
    obtain ⟨-, rfl | rfl | rfl⟩ := served_stored grown stored
    · exact rr
    · exact lr
    · exact tr

end Chain.Split

open Chain.Split in
/-- A client that went right at the first block does not get over to the heavier left branch:
of that it is sent the second block only, which finds no parent. -/
theorem Link.right_strays : ∃ served : Chain,
    served = .history root {} [.block left, .block tip] ∧
      (link served [.block right]).Lighter root ∧ (link served [.block right]).Quiet ∧
        ¬ (link served [.block right]).Gains := by
  obtain ⟨served, grown⟩ : ∃ served, served =
    Chain.history root {} [.block left, .block tip] := ⟨_, rfl⟩
  have quiet := strays_right.quiet grown
  have forked := strays_right.forked grown
  refine ⟨served, grown, strays_right.lighter grown, quiet, ?_⟩
  rintro ⟨place, block, other, named, missing, held⟩
  obtain ⟨take, -, asked⟩ := quiet.asked forked.heavier forked.room
  have lacks : (link served [.block right]).client.chain.blockByHash? left.hash = none := by
    obtain ⟨rl, -, rr, -, lr, -⟩ := apart
    rw [chain_link, Chain.blockByHash?, (@history_one right links.2.2 rfl rfl rr).1, Chain.blocks_attach, Table.get?_insert,
      if_neg (Ne.symm lr), Chain.blocks_new, if_neg rl]
  have still := forked.unchanged_of_apart quiet asked (by
    intro upper canonical
    rw [strays_right.best_link.1] at canonical
    change served.blockByNumber? 1 = some upper at canonical
    rw [(strays_right.named grown).1] at canonical
    cases canonical
    exact lacks)
  rw [Chain.blockByHash?, still, ← Chain.blockByHash?, missing] at held
  cases held

open Chain.Split in
/-- A client that has both first blocks gets over, though it went right as well. -/
theorem Link.joined_gains : ∃ served : Chain,
    served = .history root {} [.block left, .block tip] ∧
      (link served [.block right, .block left]).Lighter root ∧
        (link served [.block right, .block left]).Gains := by
  obtain ⟨served, grown⟩ : ∃ served, served =
    Chain.history root {} [.block left, .block tip] := ⟨_, rfl⟩
  refine ⟨served, grown, strays_joined.lighter grown, ?_⟩
  obtain ⟨take, size, -, gains, -⟩ :=
    exchange_of_forks (strays_joined.forked grown) (strays_joined.quiet grown)
  obtain ⟨one, two⟩ := strays_joined.named grown
  have best : (link served [.block right, .block left]).client.chain.bestNumber = 1 :=
    strays_joined.best_link.1
  have chain : (link served [.block right, .block left]).server.chain = served := rfl
  apply gains.2
  refine ⟨⟨left, left, ?_, ?_⟩, 2, tip, ?_, ?_, ?_, ?_⟩
  · rw [best, chain]
    exact one
  · rw [chain_link]
    exact joined_head.2.2.2.1
  · rw [best]
    decide
  · have positive : 0 < (link served [.block right, .block left]).reach take := by
      apply Link.reach_pos _ size
      rw [best, chain, (served_head grown).2.1]
      decide
    rw [best]
    change 2 ≤ 1 + _
    omega
  · rw [chain]
    exact two
  · rw [chain_link]
    exact joined_head.2.2.2.2

end BlockSync
