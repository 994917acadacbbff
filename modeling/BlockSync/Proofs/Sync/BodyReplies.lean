import BlockSync.Proofs.Sync.BodyAnswers
import BlockSync.Proofs.Sync.Progress

/-! Replies to requests for bodies. A request lists hashes, and the reply has the bodies of the
blocks with these hashes up to the first that is not stored, and never more than a fixed number.
The bodies carry no hashes: the node that asked pairs them with the headers that it keeps, by place
and number. If all that it asked for is stored, the pairs are those of the stored blocks. -/
namespace BlockSync

namespace Statistics

variable {s : Statistics} {peer other : String} {n : UInt64}

theorem servedTo_recordServed (s : Statistics) (peer : String) (n : UInt64) :
    (s.recordServed peer n).servedTo peer = s.servedTo peer + n := by
  unfold recordServed
  split
  · rename_i none
    rw [none, UInt64.add_zero]
  · simp [servedTo, Recency.upsert, Recency.peek?_insert_self]

/-- The count of another peer stays, unless it is forgotten. -/
theorem servedTo_recordServed_of_ne (apart : other ≠ peer) :
    (s.recordServed peer n).servedTo other = s.servedTo other ∨
      (s.recordServed peer n).servedTo other = 0 := by
  unfold recordServed
  split
  · exact .inl rfl
  · unfold servedTo Recency.upsert
    dsimp only
    rcases Recency.peek?_insert_of_ne (c := s.served) ((s.served.peek? peer).getD 0 + n) apart.symm
      with same | gone
    · rw [same]
      exact .inl rfl
    · rw [gone]
      exact .inr rfl

theorem recordServed_elsewhere (s : Statistics) (peer : String) (n : UInt64) :
    { s.recordServed peer n with served := s.served } = s := by
  unfold recordServed
  split <;> rfl

end Statistics

namespace Synchronizer

/-- The bodies of some blocks are sent to a peer and counted for it. -/
structure Serves (s t : Synchronizer) (peer : PeerId) (displayId : String) (blocks : List Block) :
    Prop where
  sent : t.effects = s.effects ++
    if s.network.accepts peer then
      [.send peer displayId (.resBlocksBodies (blocks.map fun block => block.body.encode))]
    else []
  counted : t.statistics.servedTo displayId = s.statistics.servedTo displayId + blocks.length
  uncounted : blocks = [] → t.statistics = s.statistics
  others : ∀ other, other ≠ displayId →
    t.statistics.servedTo other = s.statistics.servedTo other ∨ t.statistics.servedTo other = 0
  elsewhere : { t with
    effects := s.effects
    statistics := { t.statistics with served := s.statistics.served } } = s

/-- A batch that a node waits for, all of which is stored in a chain. A hash means one header in
both, and bodies are as short as those in any memory. -/
structure Outstanding (genesis : Block) (c : Chain) (t : Synchronizer) (peer : PeerId)
    (batch : Batch) : Prop where
  reached : ∃ config deliveries, c = .history genesis config deliveries
  awaited : t.requests.batches.peek? peer = some batch
  current : batch.reaches t.chain.bestNumber = true
  few : batch.headers.length ≤ maxServed
  stored : ∀ h ∈ batch.headers, ∃ block, c.blockByHash? h.hash = some block
  alike : ∀ h ∈ batch.headers, ∀ hash block, c.blockByHash? hash = some block →
    block.hash = h.hash → block.header = h
  bounds : ∀ h ∈ batch.headers, ∀ block, c.blockByHash? h.hash = some block →
    block.body.encode.length < 2 ^ 64

variable {genesis : Block} {c : Chain} {s t : Synchronizer} {peer : PeerId} {batch : Batch}
  {blocks : List Block} {hashes : List Hash}

theorem serves_serveBodies (peer : PeerId) (displayId : String)
    (served : servedBodies s.chain hashes = blocks.map fun block => block.body.encode) :
    Serves s (s.serveBodies peer displayId hashes) peer displayId blocks := by
  have outcome : s.serveBodies peer displayId hashes = { s with
      statistics := s.statistics.recordServed displayId blocks.length
      effects := s.effects ++ if s.network.accepts peer then
        [.send peer displayId (.resBlocksBodies (blocks.map fun block => block.body.encode))]
        else [] } := by
    unfold serveBodies
    rw [served, reply_eq, List.length_map]
    dsimp only
    split
    · rfl
    · rw [List.append_nil]
  rw [outcome]
  refine ⟨rfl, Statistics.servedTo_recordServed _ _ _, ?_,
    fun _ => Statistics.servedTo_recordServed_of_ne, ?_⟩
  · rintro rfl
    rfl
  · dsimp only
    rw [Statistics.recordServed_elsewhere]

theorem Outstanding.ledger (h : Outstanding genesis c t peer batch) : c.Ledger genesis := by
  obtain ⟨config, deliveries, rfl⟩ := h.reached
  exact Chain.ledger_history genesis config deliveries

/-- No hash of the batch is left out, and each block has the header that its hash was taken of. -/
theorem Outstanding.blocks_of_headers (h : Outstanding genesis c t peer batch)
    (found : blocks.map some =
      (batch.headers.map fun header => c.blockByHash? header.hash).takeWhile Option.isSome) :
    blocks.map some = (batch.headers.map fun header => c.blockByHash? header.hash) ∧
      blocks.map Block.header = batch.headers := by
  have all : blocks.map some = batch.headers.map fun header => c.blockByHash? header.hash := by
    rw [found, List.takeWhile_eq_self_iff]
    refine List.forall_mem_map.2 fun header listed => ?_
    obtain ⟨block, stored⟩ := h.stored header listed
    rw [stored]
    rfl
  refine ⟨all, ?_⟩
  have heads := congrArg (List.map (Option.map Block.header)) all
  apply List.map_injective_iff.2 (Option.some_injective Header)
  rw [List.map_map, List.map_map] at heads
  rw [List.map_map]
  refine heads.trans (List.map_congr_left fun header listed => ?_)
  obtain ⟨block, stored⟩ := h.stored header listed
  rw [Function.comp_apply, stored, Option.map_some,
    h.alike header listed _ block stored (h.ledger.own_hash _ _ stored)]

theorem Outstanding.expected (h : Outstanding genesis c t peer batch)
    (heads : blocks.map Block.header = batch.headers) :
    blocks ≠ [] ∧
      t.requests.expected? peer blocks.length t.chain.bestNumber = some batch := by
  have count : blocks.length = batch.headers.length := by rw [← heads, List.length_map]
  refine ⟨?_, ?_⟩
  · rintro rfl
    have current := h.current
    rw [Batch.reaches, ← heads] at current
    cases current
  · simp [Requests.expected?, h.awaited, h.current, count]

theorem Outstanding.assemble_eq (h : Outstanding genesis c t peer batch)
    (found : blocks.map some = (batch.headers.map fun header => c.blockByHash? header.hash))
    (heads : blocks.map Block.header = batch.headers) :
    assemble batch.headers (blocks.map fun block => block.body.encode) =
      blocks.takeWhile fun block => block.body.root = block.header.txRoot := by
  rw [← heads]
  refine assemble_encode_eq fun block member => ?_
  have looked_up : some block ∈ batch.headers.map fun header => c.blockByHash? header.hash :=
    found ▸ List.mem_map_of_mem member
  obtain ⟨header, listed, stored⟩ := List.mem_map.1 looked_up
  exact h.bounds header listed block stored

/-- Whatever is asked for, the bodies of the first blocks are sent that all are stored, in order,
and as many are counted. If they are asked for a batch that is waited for and all of it is stored,
they match it, and with its headers they make the stored blocks, up to the first that has not the
body that its header names. -/
theorem bodies_reply (s : Synchronizer) (peer : PeerId) (displayId : String) (hashes : List Hash) :
    ∃ blocks : List Block,
      blocks.map some =
        ((hashes.take maxServed).map s.chain.blockByHash?).takeWhile Option.isSome ∧
      Serves s (s.handle peer displayId (.reqBlocksBodies hashes)) peer displayId blocks ∧
      ∀ genesis t server name batch, Outstanding genesis s.chain t server batch →
        hashes = batch.headers.map Header.hash →
        let bodies := blocks.map fun block => block.body.encode
        let whole := blocks.takeWhile fun block => block.body.root = block.header.txRoot
        blocks.map some = hashes.map s.chain.blockByHash? ∧
          blocks.map Block.header = batch.headers ∧
          t.requests.take server bodies.length t.chain.bestNumber =
            (some batch.headers, t.requests.clear server) ∧
          assemble batch.headers bodies = whole ∧
          t.UsesUp (t.takeBodies server name bodies).2 server ∧
          Routed t.chain name whole (t.takeBodies server name bodies).1
            (t.takeBodies server name bodies).2.chain := by
  obtain ⟨blocks, found, served⟩ := bodiesOf_spec s.chain (hashes.take maxServed)
  refine ⟨blocks, found, serves_serveBodies peer displayId served, ?_⟩
  rintro genesis t server name batch outstanding rfl bodies whole
  have few : (batch.headers.map Header.hash).length ≤ maxServed := by
    rw [List.length_map]
    exact outstanding.few
  rw [List.take_of_length_le few, List.map_map] at found
  obtain ⟨all, heads⟩ := outstanding.blocks_of_headers found
  obtain ⟨some_asked, expected⟩ := outstanding.expected heads
  have made := outstanding.assemble_eq all heads
  have count : blocks.length = bodies.length := (List.length_map _).symm
  have some_came : bodies ≠ [] := fun none_came => some_asked (List.map_eq_nil_iff.1 none_came)
  rw [count] at expected
  have used : t.UsesUp (t.takeBodies server name bodies).2 server ∧
      Routed t.chain name (assemble batch.headers bodies) (t.takeBodies server name bodies).1
        (t.takeBodies server name bodies).2.chain := usesUp_takeBodies some_came expected
  rw [made] at used
  rw [List.map_map]
  exact ⟨all, heads, Requests.take_of_expected expected, made, used⟩

/-- The body of the first block comes back to the node that waits for it, and makes that block. -/
theorem bodies_reply_of_fork : ∃ s : Synchronizer,
    s.chain = .history Chain.Fork.start {} [.block Chain.Fork.first] ∧
      let t := (Synchronizer.new {} (fun _ => .ok ()) (.history Chain.Fork.start {} []) 0).storeBatch
        ⟨1⟩ [Chain.Fork.first.header]
      let body := Chain.Fork.first.body.encode
      (s.handle ⟨2⟩ "b" (.reqBlocksBodies [Chain.Fork.first.hash])).effects =
          s.effects ++ [.send ⟨2⟩ "b" (.resBlocksBodies [body])] ∧
        (t.takeBodies ⟨1⟩ "a" [body]).1 = some (.batch "a" [Chain.Fork.first]) := by
  obtain ⟨longer, grown⟩ : ∃ longer : Chain,
    longer = .history Chain.Fork.start {} [.block Chain.Fork.first] := ⟨_, rfl⟩
  obtain ⟨s, same, accepts⟩ := exists_server longer
  refine ⟨s, same.trans grown, ?_⟩
  intro t body
  have low : t.chain.bestNumber = 0 :=
    (Chain.bestNumber_eq (Chain.ledger_new Chain.Fork.start {}).genesis_stored).trans rfl
  have stored : longer.blockByHash? Chain.Fork.first.hash = some Chain.Fork.first := by
    rw [Chain.Fork.longer_eq grown]
    exact Chain.get?_attach_self _ _ _
  have outstanding : Outstanding Chain.Fork.start s.chain t ⟨1⟩ ⟨[Chain.Fork.first.header], 0⟩ := by
    rw [same]
    refine ⟨⟨_, _, grown⟩, rfl, ?_, by decide, ?_, ?_, ?_⟩
    · rw [low]
      decide
    · exact List.forall_mem_singleton.2 ⟨_, stored⟩
    · refine List.forall_mem_singleton.2 fun hash block found alike => ?_
      rcases (Chain.Fork.longer_stored grown found).2 with rfl | rfl
      · exact absurd alike.symm Chain.Fork.first_apart.1
      · rfl
    · refine List.forall_mem_singleton.2 fun block found => ?_
      rcases (Chain.Fork.longer_stored grown found).2 with rfl | rfl <;>
        simp only [Chain.Fork.start, Chain.Fork.first, Chain.Fork.child] <;> decide
  clear_value t
  obtain ⟨blocks, -, serves, answer⟩ := bodies_reply s ⟨2⟩ "b" [Chain.Fork.first.hash]
  obtain ⟨all, -, -, -, -, routed⟩ := answer _ t ⟨1⟩ "a" _ outstanding rfl
  have one : blocks = [Chain.Fork.first] := by
    apply List.map_injective_iff.2 (Option.some_injective Block)
    rw [all, same, List.map_singleton, stored]
    rfl
  subst one
  refine ⟨?_, ?_⟩
  · have sent := serves.sent
    rwa [accepts, if_pos rfl] at sent
  · have whole : [Chain.Fork.first].takeWhile (fun block => block.body.root = block.header.txRoot) =
        [Chain.Fork.first] := List.takeWhile_eq_self_iff.2 (by simp [Chain.Fork.first, Chain.Fork.child])
    rw [whole] at routed
    refine routed.queued_of_near ?_
    rw [low]
    decide

end Synchronizer

end BlockSync
