import BlockSync.Proofs.Header.Rules
import BlockSync.Proofs.Sync.Handover
import BlockSync.Proofs.Wire.Streams

/-! Replies and frames. A reply has at most so many headers or bodies, but a frame takes only so
many bytes. Headers that the rules accept are short, so a reply of headers always fits. Bodies
are as long as the frame that they came in allows, so a reply of bodies fits only if they are
short enough together. -/
namespace BlockSync

namespace Event

/-- What an event hands to the chain. -/
def deliveries : Event → List Delivery
  | handedOver .intake blocks => blocks.map .block
  | handedOver .pending blocks => [.range blocks]
  | elsewhere delivery => [delivery]
  | headers .. | bodies .. => []

theorem apply_eq (c : Chain) (event : Event) :
    event.apply c = event.deliveries.foldl Chain.deliver c := by
  cases event with
  | handedOver route blocks =>
    cases route with
    | intake =>
      rw [deliveries, List.foldl_map]
      rfl
    | pending => rfl
  | headers | bodies | elsewhere => rfl

end Event

theorem replay_eq (c : Chain) (log : List Event) :
    replay c log = (log.flatMap Event.deliveries).foldl Chain.deliver c := by
  induction log generalizing c with
  | nil => rfl
  | cons event rest ih =>
    rw [List.flatMap_cons, List.foldl_append, ← Event.apply_eq, ← ih]
    rfl

/-- A stored block is the genesis block or one that was handed over. -/
theorem handed_of_stored {genesis block : Block} {config : ChainConfig} {log : List Event}
    {hash : Hash} (own : ∀ delivery, .elsewhere delivery ∉ log)
    (stored : (replay (.new genesis config) log).blocks.get? hash = some block) :
    block = genesis ∨ ∃ place blocks, handedAt? log place = some blocks ∧ block ∈ blocks := by
  rw [replay_eq] at stored
  refine ((Chain.waits_history genesis config _).2.stored hash block stored).imp_right ?_
  rintro ⟨delivery, delivered, listed⟩
  obtain ⟨event, said, from_event⟩ := List.mem_flatMap.1 delivered
  obtain ⟨place, found⟩ := List.mem_iff_getElem?.1 said
  cases event with
  | headers => cases from_event
  | bodies => cases from_event
  | elsewhere other => exact absurd said (own other)
  | handedOver route blocks =>
    refine ⟨place, blocks, by rw [handedAt?, found]; rfl, ?_⟩
    cases route with
    | intake =>
      obtain ⟨other, member, rfl⟩ := List.mem_map.1 from_event
      rwa [List.mem_singleton.1 listed]
    | pending =>
      rw [List.mem_singleton.1 from_event] at listed
      exact listed

namespace Message

theorem fits_iff {m : Message} : m.Fits ↔
    m.body.length ≤ Frame.maxBody ∧ (Snappy.compress m.body).length ≤ Frame.maxBody :=
  Frame.writes_iff

theorem carry_of_not_fits {m : Message} (long : ¬ m.Fits) : carry [m] = [] := by
  unfold carry
  rw [List.flatMap_singleton]
  split
  · rename_i stream written
    exact absurd ⟨stream, written⟩ long
  · rfl

theorem length_resBlocksBodies (bodies : List Bytes) :
    (resBlocksBodies bodies).body.length = 8 + (bodies.map fun body => 8 + body.length).sum := by
  change (Bytes.littleEndian 8 _ ++ bodies.flatMap Layout.bytes.write).length = _
  rw [List.length_append, Bytes.length_littleEndian, List.length_flatMap,
    List.map_congr_left fun body _ => Layout.length_bytes_write body]

end Message

theorem Layout.length_flatMap_write_le {α : Type} {l : Layout α} {values : List α} {bound : Nat}
    (short : ∀ value ∈ values, (l.write value).length ≤ bound) :
    (values.flatMap l.write).length ≤ values.length * bound := by
  induction values with
  | nil => exact Nat.zero_le _
  | cons first rest ih =>
    have one := short first List.mem_cons_self
    have more := ih fun value member => short value (List.mem_cons_of_mem _ member)
    rw [List.flatMap_cons, List.length_append, List.length_cons, Nat.succ_mul]
    omega

namespace Synchronizer

theorem length_headersFrom_le (c : Chain) (count : Nat) (number : UInt64) :
    (headersFrom c count number).length ≤ count := by
  induction count generalizing number with
  | zero => exact Nat.le_refl 0
  | succ count ih =>
    rw [headersFrom]
    split
    · exact Nat.succ_le_succ (ih _)
    · exact Nat.zero_le _

theorem length_servedHeaders_le (c : Chain) (start : UInt64) (take : UInt32) :
    (servedHeaders c start take).length ≤ maxServed := by
  refine Nat.le_trans (length_headersFrom_le c _ start) ?_
  omega

theorem stored_of_servedHeaders {c : Chain} {start : UInt64} {take : UInt32} {h : Header}
    (served : h ∈ servedHeaders c start take) :
    ∃ hash block, c.blocks.get? hash = some block ∧ block.header = h := by
  rw [servedHeaders_eq] at served
  obtain ⟨block, listed, same⟩ := List.mem_map.1 served
  obtain ⟨place, named⟩ := Chain.named_of_mem_canonicalFrom listed
  obtain ⟨hash, -, stored⟩ := Option.bind_eq_some_iff.1 named
  exact ⟨hash, block, stored, same⟩

theorem fits_of_short_headers {headers : List Header} (few : headers.length ≤ maxServed)
    (short : ∀ h ∈ headers, (Layout.header.write h).length ≤ 5461) :
    (Message.resBlocksHeaders headers).Fits := by
  refine Message.fits_of_short ?_
  have bytes := Layout.length_flatMap_write_le short
  have most : headers.length * 5461 ≤ maxServed * 5461 := Nat.mul_le_mul_right _ few
  rw [Message.length_resBlocksHeaders]
  unfold maxServed at most
  unfold Frame.maxBody
  omega

theorem servedBodies_replicate {c : Chain} {hash : Hash} {block : Block} {count : Nat}
    (stored : c.blockByHash? hash = some block) (few : count ≤ maxServed) :
    servedBodies c (List.replicate count hash) = List.replicate count block.body.encode := by
  rw [servedBodies, List.take_of_length_le (by rwa [List.length_replicate])]
  clear few
  induction count with
  | zero => rfl
  | succ count ih =>
    rw [List.replicate_succ, bodiesOf, stored]
    dsimp only
    rw [ih, List.replicate_succ]

variable {genesis : Block} {config : SyncConfig} {rules settings : ChainConfig}
  {now : UInt64} {started : Instant} {log : List Event} {hand : List ImportJob}
  {s : Synchronizer}

theorem Course.accepted {validate : Validator}
    (course : Course (.new config validate (.new genesis settings) started) log hand s)
    (own : ∀ delivery, .elsewhere delivery ∉ log) {hash : Hash} {block : Block}
    (stored : s.chain.blocks.get? hash = some block) :
    block = genesis ∨ validate block.header = .ok () := by
  obtain ⟨-, grown, source, owed, account, -⟩ := course.accounted rfl rfl
  rw [grown] at stored
  refine (handed_of_stored own stored).imp_right ?_
  rintro ⟨place, blocks, handed, listed⟩
  obtain ⟨-, -, -, -, -, ⟨headers, -, valid, -, part⟩, -⟩ := account.handed place blocks handed
  exact valid _ (part.subset (List.mem_map_of_mem listed))

/-- Whatever a synchronizer has taken in by the standard rules, it answers each request, and a
reply of headers fits in a frame. A reply of bodies fits exactly if it keeps to the limit, itself
and compressed, and is lost otherwise. So if a stored block is asked for often enough at once, the
reply is lost, although the request fits in a frame and so does a reply with that body alone, if
the body is short enough. -/
theorem replies_of_course
    (course : Course (.new config (validateHeader Ecdsa.scheme now (HeaderRule.standard rules))
      (.new genesis settings) started) log hand s)
    (own : ∀ delivery, .elsewhere delivery ∉ log) (extra : rules.maxExtraDataLength ≤ 5000)
    (begun : (Layout.header.write genesis.header).length ≤ 5461) :
    (∀ start take,
      let reply := Message.resBlocksHeaders (servedHeaders s.chain start take)
      (∀ peer displayId, s.network.accepts peer = true →
        (s.handle peer displayId (.reqBlocksHeaders start take)).effects =
          s.effects ++ [.send peer displayId reply]) ∧
      reply.Fits) ∧
    (∀ hashes,
      let bodies := servedBodies s.chain hashes
      let reply := Message.resBlocksBodies bodies
      (∀ peer displayId, s.network.accepts peer = true →
        (s.handle peer displayId (.reqBlocksBodies hashes)).effects =
          s.effects ++ [.send peer displayId reply]) ∧
      reply.body.length = 8 + (bodies.map fun body => 8 + body.length).sum ∧
      (reply.Fits ↔ reply.body.length ≤ Frame.maxBody ∧
        (Snappy.compress reply.body).length ≤ Frame.maxBody) ∧
      (6 * reply.body.length + 5 ≤ Frame.maxBody → reply.Fits) ∧
      (¬ reply.Fits → carry [reply] = [])) ∧
    ∀ hash block count, s.chain.blockByHash? hash = some block → count ≤ maxServed →
      Frame.maxBody < 8 + count * (8 + block.body.encode.length) →
      (Message.reqBlocksBodies (List.replicate count hash)).Fits ∧
      (6 * (16 + block.body.encode.length) + 5 ≤ Frame.maxBody →
        (Message.resBlocksBodies [block.body.encode]).Fits) ∧
      ¬ (Message.resBlocksBodies (servedBodies s.chain (List.replicate count hash))).Fits := by
  refine ⟨?_, ?_, ?_⟩
  · intro start take reply
    refine ⟨fun peer displayId accepts => effects_send accepts displayId reply,
      fits_of_short_headers (length_servedHeaders_le _ _ _) ?_⟩
    intro h served
    obtain ⟨hash, block, stored, rfl⟩ := stored_of_servedHeaders served
    rcases course.accepted own stored with rfl | accepted
    · exact begun
    · have short := Header.length_of_accepted accepted
      omega
  · intro hashes bodies reply
    exact ⟨fun peer displayId accepts => effects_serveBodies accepts displayId hashes,
      Message.length_resBlocksBodies _, Message.fits_iff, Message.fits_of_short,
      Message.carry_of_not_fits⟩
  · intro hash block count stored few long
    refine ⟨Message.fits_reqBlocksBodies (by rwa [List.length_replicate]), ?_, ?_⟩
    · intro short
      refine Message.fits_of_short ?_
      rw [Message.length_resBlocksBodies, List.map_singleton, List.sum_singleton]
      omega
    · intro fits
      have bound := (Message.fits_iff.1 fits).1
      rw [servedBodies_replicate stored few, Message.length_resBlocksBodies, List.map_replicate,
        List.sum_replicate_nat] at bound
      omega

/-- A block with one transaction of a sixty-fourth of a frame. -/
def wide : Block :=
  let body : Body := ⟨[List.replicate 32752 0]⟩
  ⟨{ Header.empty with txRoot := body.root }, body⟩

theorem length_wide : wide.body.encode.length = 32768 := by
  change (Bytes.littleEndian 8 _ ++ [List.replicate 32752 0].flatMap Layout.bytes.write).length = _
  rw [List.length_append, Bytes.length_littleEndian, List.flatMap_singleton,
    Layout.length_bytes_write, List.length_replicate]

theorem replies_of_wide_block :
    let s : Synchronizer := .new {} (validateHeader Ecdsa.scheme 0 (HeaderRule.standard {}))
      (.new wide {}) 0
    let asked := List.replicate 64 wide.hash
    (Message.reqBlocksBodies asked).Fits ∧ (Message.resBlocksBodies [wide.body.encode]).Fits ∧
      ¬ (Message.resBlocksBodies (servedBodies s.chain asked)).Fits := by
  intro s asked
  have short : (Layout.header.write wide.header).length ≤ 5461 := by
    rw [Layout.length_header_write]
    change 160 + 0 + 0 + 0 ≤ 5461
    decide
  obtain ⟨-, -, lost⟩ := replies_of_course (.new : Course s [] [] s)
    (fun _ => List.not_mem_nil) (by decide) short
  have stored : s.chain.blockByHash? wide.hash = some wide :=
    (Chain.blocks_new wide {} wide.hash).trans (if_pos rfl)
  obtain ⟨request, fits, not_fits⟩ := lost _ _ 64 stored (by decide) (by
    rw [length_wide]
    decide)
  exact ⟨request, fits (by rw [length_wide]; decide), not_fits⟩

end Synchronizer

end BlockSync
