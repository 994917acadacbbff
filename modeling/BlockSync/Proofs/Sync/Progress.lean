import BlockSync.Proofs.Sync.Exchange

/-! Progress. A client whose best block is on the canonical branch of an honest server
further ahead gets closer with every exchange: the server's next blocks are connected in
it, whatever waits or forks off in its own chain, and its chain is heavier than before. -/
namespace BlockSync

namespace Link

open Synchronizer

/-- Nothing is wrong with a block of the server: it weighs something, the client's rules
accept it, its body is the one that its header names, and its total did not wrap. -/
structure Faultless (l : Link) (block : Block) : Prop where
  positive : 1 ≤ block.header.difficulty
  accepted : l.client.validate block.header = .ok ()
  root : block.body.root = block.header.txRoot
  unwrapped : ∀ total, l.server.chain.total? block.parentHash = some total →
    total.toNat + block.header.difficulty.toNat < 2 ^ 256

/-- Two nodes whose chains grew from one genesis block. The server's can be counted and has no
block that hashes to zero, and a hash means one header in both. -/
structure Related (genesis : Block) (l : Link) : Prop where
  start : genesis.number = 0
  client_reached : Reachable genesis l.client
  server_reached : ∃ config deliveries, l.server.chain = .history genesis config deliveries
  countable : l.server.chain.blockCount < 2 ^ 64
  nonzero : l.server.chain.blockByHash? .zero = none
  alike : ∀ left right, l.server.chain.blockByHash? left.hash = some left →
    l.client.chain.blockByHash? right.hash = some right ∨ right ∈ l.client.chain.waiting →
    left.hash = right.hash → left.header = right.header

/-- The client's best block is a canonical block of the server, which is further ahead on
the same branch with faultless blocks only. -/
structure Behind (genesis : Block) (l : Link) : Prop extends Related genesis l where
  shared : (l.server.chain.blockByNumber? l.client.chain.bestNumber).map Block.hash =
    some l.client.chain.best
  ahead : l.client.chain.bestNumber < l.server.chain.bestNumber
  faultless : ∀ number block, l.client.chain.bestNumber < number →
    l.server.chain.blockByNumber? number = some block → l.Faultless block

variable {genesis : Block} {l : Link}

theorem Related.index (h : l.Related genesis) : l.server.chain.CanonicalIndex genesis :=
  (Chain.index_of_reached h.start h.server_reached h.countable h.nonzero).1

theorem Related.server_ledger (h : l.Related genesis) : l.server.chain.Ledger genesis := by
  obtain ⟨config, deliveries, reached⟩ := h.server_reached
  rw [reached]
  exact Chain.ledger_history genesis config deliveries

theorem Related.client_sound (h : l.Related genesis) : l.client.intake.Sound genesis :=
  sound_of_reachable h.client_reached

theorem Related.limit (h : l.Related genesis) : l.server.chain.bestNumber.toNat + 1 < 2 ^ 64 :=
  (Chain.index_of_reached h.start h.server_reached h.countable h.nonzero).2

theorem Behind.totals_agree (h : l.Behind genesis) {c : Chain} (ledger : c.Ledger genesis)
    (alike : ∀ left right, l.server.chain.blockByHash? left.hash = some left →
      c.blockByHash? right.hash = some right → left.hash = right.hash → left.header = right.header)
    {hash : Hash} {left right : Block} (here : l.server.chain.blocks.get? hash = some left)
    (there : c.blocks.get? hash = some right) :
    l.server.chain.totals.get? hash = c.totals.get? hash := by
  have own := h.server_ledger.own_hash
  obtain ⟨config, deliveries, reached⟩ := h.server_reached
  have steps := Chain.steps_history genesis config deliveries
  rw [← reached] at steps
  apply Chain.totals_agree steps ledger _ here there
  intro key one other ours theirs
  have first := own _ _ ours
  have second := ledger.own_hash _ _ theirs
  exact alike one other (by rw [first]; exact ours) (by rw [second]; exact theirs)
    (first.trans second.symm)

/-- The blocks that the server has to offer above the client's best block. -/
def offered (l : Link) (take : UInt32) : List Block :=
  servedBlocks l.server.chain (l.client.chain.bestNumber + 1) take

/-- How many they are: as many as asked for, as allowed and as there are. -/
def reach (l : Link) (take : UInt32) : Nat :=
  min (min take.toNat maxServed)
    (l.server.chain.bestNumber.toNat - l.client.chain.bestNumber.toNat)

theorem reach_le_maxServed (l : Link) (take : UInt32) : l.reach take ≤ maxServed :=
  Nat.le_trans (Nat.min_le_left _ _) (Nat.min_le_right _ _)

theorem Related.stored (h : l.Related genesis) {take : UInt32} :
    ∀ block ∈ l.offered take, l.server.chain.blockByHash? block.hash = some block := by
  intro block member
  obtain ⟨place, named⟩ := Chain.named_of_mem_canonicalFrom member
  exact (h.index.stored named).1

theorem Related.offered_spec (h : l.Related genesis) {tip : Block}
    (named : l.server.chain.blockByNumber? l.client.chain.bestNumber = some tip) (take : UInt32) :
    Follows tip.hash l.client.chain.bestNumber (l.offered take) ∧
      (l.offered take).length = l.reach take ∧
      ∀ block, block ∈ l.offered take ↔ ∃ place : UInt64, l.client.chain.bestNumber < place ∧
        place.toNat ≤ l.client.chain.bestNumber.toNat + l.reach take ∧
          l.server.chain.blockByNumber? place = some block := by
  have number := (h.index.stored named).2
  unfold offered reach
  rw [← number] at named ⊢
  exact servedBlocks_spec h.index h.limit named take

theorem Behind.offered_spec (h : l.Behind genesis) (take : UInt32) :
    Follows l.client.chain.best l.client.chain.bestNumber (l.offered take) ∧
      (l.offered take).length = l.reach take ∧
      ∀ block, block ∈ l.offered take ↔ ∃ place : UInt64, l.client.chain.bestNumber < place ∧
        place.toNat ≤ l.client.chain.bestNumber.toNat + l.reach take ∧
          l.server.chain.blockByNumber? place = some block := by
  obtain ⟨tip, named, best⟩ := Option.map_eq_some_iff.1 h.shared
  rw [← best]
  exact h.toRelated.offered_spec named take

theorem Behind.offered_faultless (h : l.Behind genesis) {take : UInt32} :
    ∀ block ∈ l.offered take, l.Faultless block := by
  intro block member
  obtain ⟨place, above, -, named⟩ := ((h.offered_spec take).2.2 block).1 member
  exact h.faultless place block above named

/-- In the server's chain the offered blocks are heavier than all that the client has. -/
theorem Behind.heavier (h : l.Behind genesis) {take : UInt32} :
    ∀ block ∈ l.offered take, ∃ total, l.server.chain.totals.get? block.hash = some total ∧
      l.client.chain.total < total := by
  have ledger := h.client_sound.ledger
  obtain ⟨tip, held, -⟩ := ledger.best_block
  obtain ⟨own, named, best⟩ := Option.map_eq_some_iff.1 h.shared
  have stored : l.server.chain.blocks.get? l.client.chain.best = some own := by
    rw [← best]
    exact (h.index.stored named).1
  have base : l.server.chain.totals.get? l.client.chain.best = some l.client.chain.total :=
    (h.totals_agree ledger (fun left right ours theirs => h.alike left right ours (.inl theirs))
      stored held).trans ledger.best_total
  exact h.server_ledger.heavier_of_follows h.start base (h.offered_spec take).1 h.stored
    (fun block member => (h.offered_faultless block member).positive)
    fun block member => (h.offered_faultless block member).unwrapped

theorem Behind.unknown (h : l.Behind genesis) {take : UInt32} :
    ∀ block ∈ l.offered take, l.client.isImported block.hash = false := by
  intro block member
  rw [Bool.eq_false_iff]
  intro known
  -- what the cache names is stored, and nothing stored is as heavy as an offered block
  have ledger := h.client_sound.ledger
  obtain ⟨other, held⟩ := h.client_sound.cached _ known
  obtain ⟨total, recorded, above⟩ := h.heavier block member
  rw [h.totals_agree ledger (fun left right ours theirs => h.alike left right ours (.inl theirs))
    (h.stored block member) held] at recorded
  exact absurd above (BitVec.not_lt.2 (ledger.best_heaviest _ _ recorded))

theorem reach_pos (l : Link) {take : UInt32} (listed : take ∈ requestSizes)
    (ahead : l.client.chain.bestNumber < l.server.chain.bestNumber) : 0 < l.reach take := by
  have sizes : requestSizes.all (fun take => decide (0 < take.toNat)) = true := rfl
  have many : 0 < take.toNat := of_decide_eq_true (List.all_eq_true.1 sizes take listed)
  have beyond := UInt64.lt_iff_toNat_lt.1 ahead
  unfold reach maxServed
  omega

theorem Behind.last_offered (h : l.Behind genesis) {take : UInt32} (listed : take ∈ requestSizes) :
    ∃ (place : UInt64) (block : Block),
      place.toNat = l.client.chain.bestNumber.toNat + l.reach take ∧
        l.server.chain.blockByNumber? place = some block ∧ block ∈ l.offered take := by
  have positive := l.reach_pos listed h.ahead
  have limit := h.limit
  have inside : l.client.chain.bestNumber.toNat + l.reach take ≤
      l.server.chain.bestNumber.toNat := by
    have ahead := UInt64.lt_iff_toNat_lt.1 h.ahead
    unfold reach
    omega
  have place : (UInt64.ofNat (l.client.chain.bestNumber.toNat + l.reach take)).toNat =
      l.client.chain.bestNumber.toNat + l.reach take := by
    rw [UInt64.toNat_ofNat']
    exact Nat.mod_eq_of_lt (by omega)
  have held : UInt64.ofNat (l.client.chain.bestNumber.toNat + l.reach take) ≤
      l.server.chain.bestNumber := UInt64.le_iff_toNat_le.2 (by omega)
  obtain ⟨block, named, -⟩ := h.index.named held
  exact ⟨_, block, place, named, ((h.offered_spec take).2.2 block).2
    ⟨_, UInt64.lt_iff_toNat_lt.2 (by omega), by omega, named⟩⟩

/-- What the client's chain can hold after the exchange. -/
def Known (l : Link) (take : UInt32) (block : Block) : Prop :=
  (l.client.chain.blockByHash? block.hash = some block ∨ block ∈ l.client.chain.waiting) ∨
    block ∈ l.offered take

theorem Related.header_eq (h : l.Related genesis) {take : UInt32} {left right : Block}
    (ours : l.server.chain.blockByHash? left.hash = some left)
    (known : right = genesis ∨ l.Known take right) (same : left.hash = right.hash) :
    left.header = right.header := by
  have equal (theirs : l.server.chain.blockByHash? right.hash = some right) :
      left.header = right.header := by
    rw [← same, ours, Option.some.injEq] at theirs
    rw [theirs]
  rcases known with rfl | held | member
  · exact equal h.server_ledger.genesis_stored
  · exact h.alike left right ours held same
  · exact equal (h.stored right member)

theorem Related.origin (h : l.Related genesis) (take : UInt32) :
    Chain.Origin genesis (l.Known take) l.client.intake.chain where
  stored hash block held := by
    have own := h.client_sound.ledger.own_hash _ _ held
    exact .inr (.inl (.inl (by rw [own]; exact held)))
  waiting block member := .inl (.inr member)

theorem Behind.passed (h : l.Behind genesis) (take : UInt32) :
    screen l.client.validate l.client.isImported
      (servedHeaders l.server.chain (l.client.chain.bestNumber + 1) take) =
        .ok ((l.offered take).map Block.header) := by
  have fresh : (l.offered take).filter (fun block => !l.client.isImported block.hash) =
      l.offered take := by
    apply List.filter_eq_self.2
    intro block member
    rw [h.unknown block member]
    rfl
  rw [servedHeaders_eq, ← fresh]
  exact (h.offered_spec take).1.screen_eq
    fun block member => (h.offered_faultless block member).accepted

theorem reachable_receiveAll {s : Synchronizer} (h : Reachable genesis s) (peer : PeerId)
    (displayId : String) (envelopes : List Envelope) :
    Reachable genesis (s.receiveAll peer displayId envelopes) := by
  induction envelopes generalizing s with
  | nil => exact h
  | cons e rest ih =>
    refine ih (s := (s.receive peer displayId e).getD s) ?_
    cases taken : s.receive peer displayId e with
    | none => exact h
    | some t => exact .step h (.receive peer displayId e taken)

theorem reachable_exchange (h : Reachable genesis l.client) :
    Reachable genesis l.exchange.client := by
  have first : Reachable genesis (l.round runCycle).client :=
    reachable_receiveAll (.step h (.cycle _)) _ _ _
  have second : Reachable genesis ((l.round runCycle).round runBodies).client :=
    reachable_receiveAll (.step first (.turn _ .bodies)) _ _ _
  exact .step second (.imports _ 1)

theorem Behind.quiet (behind : l.Behind genesis) (undisturbed : l.Undisturbed) : l.Quiet := by
  refine undisturbed.quiet fun take _ => ?_
  rw [behind.passed take, servedHeaders_eq]
  rfl

theorem Behind.asked (behind : l.Behind genesis) (undisturbed : l.Undisturbed) :
    ∃ take ∈ requestSizes, l.Asks take := by
  apply (behind.quiet undisturbed).asked
  · have listed : 24 ∈ requestSizes := by decide
    obtain ⟨_, block, -, -, member⟩ := behind.last_offered listed
    obtain ⟨total, recorded, above⟩ := behind.heavier block member
    exact Std.lt_of_lt_of_le above (behind.server_ledger.best_heaviest _ _ recorded)
  · have ahead := UInt64.lt_iff_toNat_lt.1 behind.ahead
    have limit := behind.limit
    omega

theorem Behind.chain_exchange (behind : l.Behind genesis) (undisturbed : l.Undisturbed)
    {take : UInt32} (asked : l.Asks take) :
    l.exchange.client.chain = (l.client.intake.importBlocks (l.offered take)).1.chain := by
  obtain ⟨-, length, members⟩ := behind.offered_spec take
  have few := l.reach_le_maxServed take
  have numbers : ∀ block ∈ l.offered take,
      l.client.chain.bestNumber.toNat < block.number.toNat ∧
        block.number.toNat ≤ l.client.chain.bestNumber.toNat + maxServed := by
    intro block member
    obtain ⟨place, above, below, named⟩ := (members block).1 member
    rw [(behind.index.stored named).2]
    exact ⟨UInt64.lt_iff_toNat_lt.1 above, by omega⟩
  exact (behind.quiet undisturbed).chain_exchange asked (behind.passed take) (length ▸ few)
    behind.stored (fun block member => (behind.offered_faultless block member).root)
    (fun block member => (numbers block member).1) fun block member => (numbers block member).2

theorem Behind.exchange_spec (behind : l.Behind genesis) (undisturbed : l.Undisturbed)
    {take : UInt32} (asked : l.Asks take) :
    l.exchange.client.chain.Ledger genesis ∧
      (∀ hash block, l.exchange.client.chain.blocks.get? hash = some block →
        block = genesis ∨ l.Known take block) ∧
      ∀ block ∈ l.offered take, ∃ other,
        l.exchange.client.chain.blocks.get? block.hash = some other := by
  have result := behind.chain_exchange undisturbed asked
  obtain ⟨follows, -, -⟩ := behind.offered_spec take
  obtain ⟨tip, held, number⟩ := behind.client_sound.ledger.best_block
  have known_alike : ∀ block ∈ l.offered take, ∀ other, other = genesis ∨ l.Known take other →
      other.hash = block.hash → other.header = block.header := by
    intro block member other known same
    exact (behind.header_eq (behind.stored block member) known same.symm).symm
  have whole : (l.offered take).filter (fun block => !(fun _ => false) block.hash) =
      l.offered take := by simp
  obtain ⟨sound, origin, -, imported⟩ := behind.client_sound.import_follows (behind.origin take)
    .zero (fun block member => .inr member) known_alike held number.symm follows
    (fun _ => false) (by simp)
  rw [whole] at sound origin imported
  rw [result]
  exact ⟨sound.ledger, origin.stored, imported⟩

/-- An undisturbed exchange with an honest server that is ahead connects the server's next
blocks in the client, up to as many as it asked for, and makes the client's chain heavier. -/
theorem exchange_progress (behind : l.Behind genesis) (undisturbed : l.Undisturbed) :
    ∃ take ∈ requestSizes, l.Asks take ∧
      (∀ place : UInt64, l.client.chain.bestNumber < place →
        place.toNat ≤ l.client.chain.bestNumber.toNat + l.reach take →
        ∃ block other, l.server.chain.blockByNumber? place = some block ∧
          l.exchange.client.chain.blockByHash? block.hash = some other ∧
            other.header = block.header) ∧
      (∃ (place : UInt64) (block : Block) (total : Difficulty),
        place.toNat = l.client.chain.bestNumber.toNat + l.reach take ∧
          l.server.chain.blockByNumber? place = some block ∧
            l.server.chain.total? block.hash = some total ∧ total ≤ l.exchange.client.chain.total) ∧
      l.client.chain.total < l.exchange.client.chain.total ∧
        Reachable genesis l.exchange.client := by
  obtain ⟨take, size, asked⟩ := behind.asked undisturbed
  obtain ⟨ledger, origin, imported⟩ := behind.exchange_spec undisturbed asked
  have members := (behind.offered_spec take).2.2
  have alike : ∀ left right, l.server.chain.blockByHash? left.hash = some left →
      l.exchange.client.chain.blockByHash? right.hash = some right →
      left.hash = right.hash → left.header = right.header :=
    fun left right ours theirs => behind.header_eq ours (origin _ _ theirs)
  obtain ⟨place, last, top, named, member⟩ := behind.last_offered size
  obtain ⟨total, recorded, above⟩ := behind.heavier last member
  -- the client holds the last offered block now, with the total that the server has for it
  have reached : total ≤ l.exchange.client.chain.total := by
    obtain ⟨other, theirs⟩ := imported last member
    apply ledger.best_heaviest last.hash total
    rw [← recorded]
    exact (behind.totals_agree ledger alike (behind.stored last member) theirs).symm
  refine ⟨take, size, asked, ?_, ⟨place, last, total, top, named, recorded, reached⟩,
    Std.lt_of_lt_of_le above reached, reachable_exchange behind.client_reached⟩
  intro place above_head below
  have held : place ≤ l.server.chain.bestNumber := by
    have ahead := UInt64.lt_iff_toNat_lt.1 behind.ahead
    unfold reach at below
    exact UInt64.le_iff_toNat_le.2 (by omega)
  obtain ⟨block, found, -⟩ := behind.index.named held
  have offered := (members block).2 ⟨place, above_head, below, found⟩
  obtain ⟨other, theirs⟩ := imported block offered
  have own := ledger.own_hash _ _ theirs
  exact ⟨block, other, found, theirs,
    (behind.header_eq (behind.stored block offered) (origin _ _ theirs) own.symm).symm⟩

end Link

/-! A client with nothing but the genesis block of the fork, and a server that has one
block more. -/
namespace Chain.Fork

variable {longer : Chain} (grown : longer = history start {} [.block first])

theorem first_apart : first.hash ≠ start.hash ∧ first.hash ≠ .zero ∧ start.hash ≠ .zero := by
  obtain ⟨distinct, -, nonzero⟩ := List.nodup_append.1 hashes_differ
  have listed : first.hash ∈ [start, second, first, heavy].map Block.hash :=
    List.mem_map_of_mem (.tail _ (.tail _ (.head _)))
  refine ⟨fun same => (List.nodup_cons.1 distinct).1 ?_, nonzero _ listed _ (.head _),
    nonzero _ (.head _) _ (.head _)⟩
  rw [← same]
  exact List.mem_map_of_mem (.tail _ (.head _))

include grown

theorem longer_eq : longer = (Chain.new start {}).attach first 1 := by
  have ledger := ledger_new start {}
  have fits : (Chain.new start {}).Fits first start start.header.difficulty := by
    refine ⟨?_, ledger.genesis_stored, ledger.genesis_total, rfl⟩
    rw [blocks_new, if_neg first_apart.1.symm]
  rw [grown, history_block, ledger.offer_fits fits rfl]
  rfl

theorem longer_best : longer.best = first.hash ∧ longer.bestNumber = 1 := by
  have fresh : (Chain.new start {}).blocks.get? first.hash = none := by
    rw [blocks_new, if_neg first_apart.1.symm]
  have best := (ledger_new start {}).best_attach fresh 1
  rw [total_new, if_pos (by decide)] at best
  have stored := get?_attach_self (Chain.new start {}) first 1
  rw [← best] at stored
  rw [longer_eq grown]
  exact ⟨best, (bestNumber_eq stored).trans rfl⟩

theorem longer_stored {hash : Hash} {block : Block}
    (stored : longer.blockByHash? hash = some block) :
    block.hash = hash ∧ (block = start ∨ block = first) := by
  have ledger := ledger_history start {} [.block first]
  have origin := (waits_history start {} [.block first]).2
  rw [← grown] at ledger origin
  refine ⟨ledger.own_hash _ _ stored, ?_⟩
  rcases origin.stored _ _ stored with rfl | came
  · exact .inl rfl
  · have handed : block ∈ [first] := List.mem_flatMap.2 came
    exact .inr (List.mem_singleton.1 handed)

theorem longer_nonzero : longer.blockByHash? .zero = none := by
  apply Option.eq_none_iff_forall_ne_some.2
  intro block stored
  obtain ⟨own, rfl | rfl⟩ := longer_stored grown stored
  · exact first_apart.2.2 own
  · exact first_apart.2.1 own

theorem longer_countable : longer.blockCount < 2 ^ 64 := by
  rw [grown]
  exact Nat.lt_of_le_of_lt (blockCount_history_le start {} [.block first]) (by decide)

theorem longer_index : longer.CanonicalIndex start :=
  (index_of_reached rfl ⟨_, _, grown⟩ (longer_countable grown) (longer_nonzero grown)).1

theorem longer_zero : longer.blockByNumber? 0 = some start := by
  have index := longer_index grown
  have lowest : 0 ≤ longer.bestNumber := UInt64.le_iff_toNat_le.2 (Nat.zero_le _)
  obtain ⟨block, named, entry, stored, -⟩ := index.named lowest
  have base := index.first
  rw [UInt64.toNat_zero, base, Option.some.injEq] at entry
  rcases (longer_stored grown stored).2 with rfl | rfl
  · exact named
  · exact absurd entry.symm first_apart.1

theorem longer_one : longer.blockByNumber? 1 = some first := by
  have best := (longer_best grown).2
  obtain ⟨block, named, -, stored, number⟩ := (longer_index grown).named (UInt64.le_of_eq best.symm)
  rcases (longer_stored grown stored).2 with rfl | rfl
  · cases number
  · exact named

omit grown

def server (longer : Chain) : PeerInfo :=
  ⟨⟨1⟩, .v4 0 0, .outbound, ⟨1, first.hash, longer.total⟩, 0⟩

/-- A client that has only the genesis block, connected to a server with more. -/
def link (longer : Chain) : Link where
  client := { Synchronizer.new {} (fun _ => .ok ()) (history start {} []) 0 with
    network := ⟨[server longer], 1, 0, fun _ => true⟩ }
  server := .new {} (fun _ => .ok ()) longer 0
  clientId := NodeId.peerId ⟨0⟩
  clientName := "client"
  serverId := (server longer).peer
  serverName := "server"

theorem client_best (longer : Chain) : (link longer).client.chain.best = start.hash ∧
    (link longer).client.chain.bestNumber = 0 := by
  have stored : (link longer).client.chain.blocks.get? (link longer).client.chain.best =
      some start := (ledger_new start {}).genesis_stored
  exact ⟨rfl, (bestNumber_eq stored).trans rfl⟩

theorem link_reachable (longer : Chain) : Synchronizer.Reachable start (link longer).client :=
  .step (.new {} (fun _ => .ok ()) {} [] 0) (.surroundings _ _ _)

theorem link_behind (grown : longer = history start {} [.block first]) :
    (link longer).Behind start := by
  have fresh : (link longer).client.chain = Chain.new start {} := rfl
  have index := longer_index grown
  refine ⟨⟨rfl, link_reachable longer, ⟨{}, [.block first], grown⟩, longer_countable grown,
    longer_nonzero grown, ?_⟩, ?_, ?_, ?_⟩
  · intro left right ours theirs same
    rw [fresh] at theirs
    rcases theirs with held | waits
    · rw [blockByHash?, blocks_new] at held
      split at held
      · rename_i own
        obtain ⟨-, rfl | rfl⟩ := longer_stored grown ours
        · rw [Option.some.inj held]
        · exact absurd (same.trans own.symm) first_apart.1
      · cases held
    · exact absurd waits List.not_mem_nil
  · rw [(client_best longer).1, (client_best longer).2]
    exact congrArg (Option.map Block.hash) (longer_zero grown)
  · rw [(client_best longer).2]
    change 0 < longer.bestNumber
    rw [(longer_best grown).2]
    decide
  · intro number block above named
    rw [(client_best longer).2] at above
    obtain ⟨stored, own⟩ := index.stored named
    rw [← own] at above
    obtain ⟨-, rfl | rfl⟩ := longer_stored grown stored
    · exact absurd above (by decide)
    · have ledger := ledger_history start {} [.block first]
      rw [← grown] at ledger
      refine ⟨by decide, rfl, rfl, ?_⟩
      intro total recorded
      have base : longer.total? first.parentHash = some start.header.difficulty :=
        ledger.genesis_total
      change longer.total? first.parentHash = some total at recorded
      rw [base, Option.some.injEq] at recorded
      rw [← recorded]
      decide

theorem header_fits_child (parent : Block) (difficulty : Difficulty) :
    (Message.resBlocksHeaders [(child parent difficulty).header]).Fits := by
  refine Message.fits_of_short ?_
  rw [Message.length_resBlocksHeaders, List.flatMap_singleton, Layout.length_header_write]
  simp [child, Header.empty, Frame.maxBody]

theorem body_fits_child (parent : Block) (difficulty : Difficulty) :
    (Message.resBlocksBodies [(child parent difficulty).body.encode]).Fits :=
  Message.fits_of_short (by simp only [child]; decide)

theorem offered_link (grown : longer = history start {} [.block first]) (take : UInt32) :
    (link longer).offered take = [] ∨ (link longer).offered take = [first] := by
  have behind := link_behind grown
  obtain ⟨follows, length, -⟩ := behind.offered_spec take
  have stored : ∀ block ∈ (link longer).offered take,
      longer.blockByHash? block.hash = some block := behind.stored
  have few : (link longer).reach take ≤ 1 := by
    unfold Link.reach
    rw [show (link longer).server.chain = longer from rfl, (longer_best grown).2]
    exact Nat.le_trans (Nat.min_le_right _ _) (Nat.sub_le _ _)
  cases offered : (link longer).offered take with
  | nil => exact .inl rfl
  | cons block rest =>
    rw [offered] at follows length stored
    rw [List.length_cons] at length
    obtain rfl : rest = [] := List.eq_nil_of_length_eq_zero (by omega)
    obtain ⟨-, rfl | rfl⟩ := longer_stored grown (stored block List.mem_cons_self)
    · rw [(client_best longer).2] at follows
      exact absurd follows.2.1 (by decide)
    · exact .inr rfl

theorem link_undisturbed (grown : longer = history start {} [.block first]) :
    (link longer).Undisturbed := by
  have headers (take : UInt32) :
      Synchronizer.servedHeaders longer ((link longer).client.chain.bestNumber + 1) take =
        ((link longer).offered take).map Block.header :=
    Synchronizer.servedHeaders_eq longer _ take
  refine ⟨⟨rfl, rfl, rfl, rfl, List.nodup_singleton _,
    ⟨server longer, List.mem_cons_self, rfl, rfl⟩, rfl, ?_⟩, ?_⟩
  · intro take _
    rw [show (link longer).server.chain = longer from rfl, headers]
    rcases offered_link grown take with offered | offered <;> rw [offered]
    · exact Message.fits_of_short (by decide)
    · exact header_fits_child start 1
  · intro take _
    rw [show (link longer).server.chain = longer from rfl, headers]
    rcases offered_link grown take with offered | offered <;> rw [offered]
    · have none_served : Synchronizer.servedBodies longer (([].map Block.header).map Header.hash) =
          [] := rfl
      rw [none_served]
      exact Message.fits_of_short (by decide)
    · have stored : ∀ block ∈ [first], longer.blockByHash? block.hash = some block := by
        rw [← offered]
        exact (link_behind grown).stored
      have served := Synchronizer.servedBodies_hashes (by decide) stored
      rw [List.map_singleton, List.map_singleton]
      rw [List.map_singleton, List.map_singleton] at served
      rw [show Header.hash first.header = Block.hash first from rfl, served]
      exact body_fits_child start 1

end Chain.Fork

/-- The block that the server has more is brought to the client. -/
theorem Link.exchange_brings_first : ∃ longer : Chain,
    longer = .history Chain.Fork.start {} [.block Chain.Fork.first] ∧
      ∃ block other, longer.blockByNumber? 1 = some block ∧
        (Chain.Fork.link longer).exchange.client.chain.blockByHash? block.hash = some other := by
  obtain ⟨longer, grown⟩ : ∃ longer, longer =
    Chain.history Chain.Fork.start {} [.block Chain.Fork.first] := ⟨_, rfl⟩
  have behind := Chain.Fork.link_behind grown
  obtain ⟨take, size, -, brought, -⟩ := exchange_progress behind (Chain.Fork.link_undisturbed grown)
  have reach := (Chain.Fork.link longer).reach_pos size behind.ahead
  have best := (Chain.Fork.client_best longer).2
  obtain ⟨block, other, named, held, -⟩ := brought 1 (by rw [best]; decide) (by
    rw [best, UInt64.toNat_one, UInt64.toNat_zero]
    omega)
  exact ⟨longer, grown, block, other, named, held⟩

end BlockSync
