import BlockSync.Producer
import BlockSync.Proofs.Chain.Line
import BlockSync.Proofs.Header.Rules

/-! What the producer makes is taken. Each block is the next one on top of the block before it,
carries its own root, and is signed over what the signature rule looks at. So its header keeps
the rules, a run of headers passes the screening, header and encoded body make the block again,
and a chain that is offered the blocks in order moves on with each of them. -/
namespace BlockSync

/-- A signature that was made with the key of a seed is accepted under its public form. -/
def SignatureScheme.Correct (scheme : SignatureScheme) : Prop :=
  ∀ seed key, scheme.keyOfSeed seed = some key →
    ∀ message, scheme.verify (scheme.publicKey key) message (scheme.sign key message) = .ok ()

namespace Producer

variable {scheme : SignatureScheme}

/-- What a producer can be told. -/
inductive Order where
  | difficulty (value : UInt64)
  | block (transactions : List Bytes)
  | blocks (count : Nat)
  deriving DecidableEq, Repr

def perform (p : Producer scheme) : Order → List Block × Producer scheme
  | .difficulty value => ([], p.setDifficulty value)
  | .block transactions => ([(p.nextBlock transactions).1], (p.nextBlock transactions).2)
  | .blocks count => p.blocks count

/-- All blocks that a list of orders makes, in order. -/
def performAll (p : Producer scheme) : List Order → List Block × Producer scheme
  | [] => ([], p)
  | order :: rest =>
    let (made, p) := p.perform order
    let (more, p) := performAll p rest
    (made ++ more, p)

/-- Each block is numbered next, names the hash of the header before it, and is ten seconds
later. -/
def Successive : Header → List Block → Prop
  | _, [] => True
  | tip, block :: rest =>
    block.header.number = tip.number + 1 ∧ block.header.parentHash = tip.hash ∧
      block.header.timestamp = tip.timestamp + 10 ∧ Successive block.header rest

def top (tip : Header) (blocks : List Block) : Header :=
  blocks.foldl (fun _ block => block.header) tip

structure Signed (key : scheme.Key) (block : Block) : Prop where
  root : block.body.root = block.header.txRoot
  extraData : block.header.extraData.length = 3
  publicKey : block.header.publicKey = scheme.publicKey key
  signature : block.header.signature = scheme.sign key block.header.mineHash.toBytes

/-- These blocks lie between a producer and what it becomes. -/
structure Makes (p : Producer scheme) (made : List Block) (q : Producer scheme) : Prop where
  key : q.key = p.key
  tip : q.tip = top p.tip made
  successive : Successive p.tip made
  signed : ∀ block ∈ made, Signed p.key block

variable {p q r : Producer scheme} {tip : Header} {block : Block} {made more front rest : List Block}

theorem successive_append : Successive tip (front ++ rest) ↔
    Successive tip front ∧ Successive (top tip front) rest := by
  induction front generalizing tip with
  | nil => exact (and_iff_right trivial).symm
  | cons block front ih =>
    rw [List.cons_append, Successive, Successive, ih]
    simp only [top, List.foldl_cons, and_assoc]

theorem Makes.refl (p : Producer scheme) : Makes p [] p :=
  ⟨rfl, rfl, trivial, fun _ member => absurd member List.not_mem_nil⟩

theorem Makes.trans (h : Makes p made q) (k : Makes q more r) : Makes p (made ++ more) r where
  key := k.key.trans h.key
  tip := by rw [k.tip, h.tip, top, top, top, List.foldl_append]
  successive := successive_append.2 ⟨h.successive, h.tip ▸ k.successive⟩
  signed block member := by
    rcases List.mem_append.1 member with first | later
    · exact h.signed block first
    · exact h.key ▸ k.signed block later

theorem makes_setDifficulty (p : Producer scheme) (value : UInt64) :
    Makes p [] (p.setDifficulty value) :=
  { Makes.refl p with key := rfl, tip := rfl }

theorem length_mark : "dev".toUTF8.toList.length = 3 := by
  decide +kernel

/-- The signature is not part of what is signed, so the header is signed as it is sent. -/
theorem makes_nextBlock (p : Producer scheme) (transactions : List Bytes) :
    Makes p [(p.nextBlock transactions).1] (p.nextBlock transactions).2 where
  key := rfl
  tip := rfl
  successive := ⟨rfl, rfl, rfl, trivial⟩
  signed block member := by
    obtain rfl := List.mem_singleton.1 member
    exact ⟨rfl, length_mark, rfl, rfl⟩

theorem makes_blocks (p : Producer scheme) (count : Nat) :
    Makes p (p.blocks count).1 (p.blocks count).2 := by
  induction count generalizing p with
  | zero => exact .refl p
  | succ count ih => exact (makes_nextBlock p _).trans (ih _)

theorem makes_perform (p : Producer scheme) (order : Order) :
    Makes p (p.perform order).1 (p.perform order).2 := by
  cases order with
  | difficulty value => exact makes_setDifficulty p value
  | block transactions => exact makes_nextBlock p transactions
  | blocks count => exact makes_blocks p count

theorem makes_performAll (p : Producer scheme) (orders : List Order) :
    Makes p (p.performAll orders).1 (p.performAll orders).2 := by
  induction orders generalizing p with
  | nil => exact .refl p
  | cons order rest ih => exact (makes_perform p order).trans (ih _)

/-- As long as numbers do not wrap, successive blocks follow on each other. -/
theorem Successive.follows (h : Successive tip made)
    (room : tip.number.toNat + made.length < 2 ^ 64) : Follows tip.hash tip.number made := by
  induction made generalizing tip with
  | nil => trivial
  | cons block rest ih =>
    obtain ⟨number, link, -, later⟩ := h
    rw [List.length_cons] at room
    have next : block.number.toNat = tip.number.toNat + 1 := by
      rw [Block.number, number]
      exact toNat_add_one (by omega)
    exact ⟨link, next, ih later (by rw [← Block.number, next]; omega)⟩

theorem Successive.run_follows (h : Successive tip made)
    (room : tip.number.toNat + made.length < 2 ^ 64) {run : List Block} (inside : run <:+: made) :
    ∃ hash number, Follows hash number run := by
  obtain ⟨front, back, rfl⟩ := inside
  exact (h.follows room).take.drop

variable {key : scheme.Key}

theorem Signed.verified (signed : Signed key block)
    (accepts : ∀ message,
      scheme.verify (scheme.publicKey key) message (scheme.sign key message) = .ok ()) :
    scheme.verify block.header.publicKey block.header.mineHash.toBytes block.header.signature =
      .ok () := by
  rw [signed.publicKey, signed.signature, accepts]

theorem key_of_new? {seed : Bytes} (seeded : new? scheme seed = some p) :
    scheme.keyOfSeed seed = some p.key ∧ p.tip = genesisBlock.header ∧ p.difficulty = 1 := by
  obtain ⟨key, found, rfl⟩ := Option.map_eq_some_iff.1 seeded
  exact ⟨found, rfl, rfl⟩

theorem difficulties_blocks (p : Producer scheme) (count : Nat) :
    (p.blocks count).1.map (·.header.difficulty) = List.replicate count p.difficulty := by
  induction count generalizing p with
  | zero => rfl
  | succ count ih => exact congrArg _ (ih _)

theorem length_blocks (p : Producer scheme) (count : Nat) : (p.blocks count).1.length = count := by
  have lengths := congrArg List.length (difficulties_blocks p count)
  rwa [List.length_map, List.length_replicate] at lengths

theorem weight_blocks (p : Producer scheme) (count : Nat) :
    Chain.weight genesisBlock (p.blocks count).1 = 1 + count * p.difficulty.toNat := by
  have numbers := congrArg (List.map BitVec.toNat) (difficulties_blocks p count)
  rw [List.map_map, List.map_replicate] at numbers
  change _ + ((p.blocks count).1.map (BitVec.toNat ∘ fun block => block.header.difficulty)).sum = _
  rw [numbers, List.sum_replicate_nat]
  rfl

theorem devChain_eq (seeded : new? scheme devSeed = some p) (count : Nat) :
    devChain scheme count = some ((Chain.new genesisBlock {}).offerAll (p.blocks count).1) := by
  unfold devChain
  split
  · rename_i none
    rw [none]
    rfl
  · rw [seeded]
    rfl

/-- The blocks of `blocks` have the difficulty of one each, so no sum of them wraps. -/
theorem climbs_blocks (seeded : new? scheme devSeed = some p) {count : Nat}
    (countable : count < 2 ^ 64) (unambiguous : Chain.Unambiguous genesisBlock (p.blocks count).1) :
    Chain.Climbs genesisBlock (p.blocks count).1 := by
  obtain ⟨-, start, one⟩ := key_of_new? seeded
  have successive := (makes_blocks p count).successive
  rw [start] at successive
  refine ⟨successive.follows ?_, unambiguous, ?_, ?_⟩
  · rw [length_blocks]
    change 0 + count < 2 ^ 64
    omega
  · intro block member
    have listed := List.mem_map_of_mem (f := fun block => block.header.difficulty) member
    rw [difficulties_blocks, one] at listed
    rw [List.eq_of_mem_replicate listed]
    decide
  · rw [weight_blocks, one]
    change 1 + count * 1 < 2 ^ 256
    omega

theorem devChain_spec (seeded : new? scheme devSeed = some p) {count : Nat}
    (countable : count < 2 ^ 64) (unambiguous : Chain.Unambiguous genesisBlock (p.blocks count).1) :
    ∃ chain, devChain scheme count = some chain ∧ chain.bestNumber.toNat = count ∧
      chain.total.toNat = count + 1 ∧ chain.blockCount = count + 1 ∧
      chain.pendingCount = 0 ∧ chain.waiting = [] := by
  obtain ⟨tip, line⟩ := (climbs_blocks seeded countable unambiguous).line {}
  obtain ⟨-, -, one⟩ := key_of_new? seeded
  refine ⟨_, devChain_eq seeded count, ?_, ?_, ?_, line.none_pending, ?_⟩
  · rw [Chain.bestNumber_eq (line.best ▸ line.stored), line.height, length_blocks]
    exact Nat.zero_add count
  · rw [line.total, weight_blocks, one]
    change 1 + count * 1 = count + 1
    omega
  · rw [line.count, length_blocks]
  · rw [Chain.waiting, line.idle]
    rfl

/-- What a producer with an accepted seed makes, whatever it is told, a node takes: the headers
keep the rules for extra data and signatures and follow on each other from the genesis block,
no run of them has a gap for the screening, encoded bodies make the blocks again, and a chain
that is offered the blocks in order makes each its best one, as long as difficulties are positive
and their sum does not wrap. The development chain of any length is complete. -/
theorem accepted_by_nodes {seed : Bytes} (seeded : new? scheme seed = some p)
    (correct : scheme.Correct) (orders : List Order) :
    let made := (p.performAll orders).1
    Successive genesisBlock.header made ∧
    (∀ block ∈ made,
      (∀ now maxLength, (HeaderRule.extraData maxLength).check scheme now block.header = .ok () ↔
        3 ≤ maxLength) ∧
      (∀ now, HeaderRule.signature.check scheme now block.header = .ok ()) ∧
      (∀ now config, validateHeader scheme now (HeaderRule.standard config) block.header = .ok () ↔
        3 ≤ config.maxExtraDataLength ∧
          block.header.timestamp.toNat ≤ latestTimestamp now config.maxFutureDrift) ∧
      (block.body.encode.length < 2 ^ 64 →
        Block.assemble? block.header block.body.encode = some block)) ∧
    (made.length < 2 ^ 64 →
      (∀ run, run <:+: made → ∀ validate known,
        (∀ gap, screen validate known (run.map Block.header) ≠ .error (.discontinuous gap)) ∧
        ((∀ block ∈ run, validate block.header = .ok ()) →
          screen validate known (run.map Block.header) =
            .ok ((run.filter fun block => !known block.hash).map Block.header))) ∧
      ((∀ block ∈ made, 0 < block.header.difficulty) →
        Chain.weight genesisBlock made < 2 ^ 256 → Chain.Unambiguous genesisBlock made →
        ∀ config front block rest, made = front ++ block :: rest →
          (((Chain.new genesisBlock config).offerAll front).offer block).1 = .importedBest)) ∧
    ∀ q : Producer scheme, new? scheme devSeed = some q → ∀ count < 2 ^ 64,
      Chain.Unambiguous genesisBlock (q.blocks count).1 →
      ∃ chain, devChain scheme count = some chain ∧ chain.bestNumber.toNat = count ∧
        chain.total.toNat = count + 1 ∧ chain.blockCount = count + 1 ∧
        chain.pendingCount = 0 ∧ chain.waiting = [] := by
  intro made
  obtain ⟨known, start, -⟩ := key_of_new? seeded
  obtain ⟨-, -, successive, signed⟩ := makes_performAll p orders
  rw [start] at successive
  have room (countable : made.length < 2 ^ 64) :
      genesisBlock.header.number.toNat + made.length < 2 ^ 64 := by
    rwa [show genesisBlock.header.number.toNat = 0 from rfl, Nat.zero_add]
  refine ⟨successive, fun block member => ?_, fun countable => ⟨?_, ?_⟩, ?_⟩
  · have sound := signed block member
    have verified := sound.verified (correct seed p.key known)
    refine ⟨fun now maxLength => ?_, fun now => HeaderRule.check_signature_iff.2 verified,
      fun now config => ?_, block.assemble?_encode sound.root⟩
    · rw [HeaderRule.check_extraData_iff, sound.extraData]
    · rw [validateHeader_standard_iff, sound.extraData, and_iff_left verified]
  · intro run inside validate known
    obtain ⟨hash, number, follows⟩ := successive.run_follows (room countable) inside
    exact ⟨follows.screen_continuous, follows.screen_eq⟩
  · intro positive exact unambiguous config front block rest split
    have climbs : Chain.Climbs genesisBlock made :=
      ⟨successive.follows (room countable), unambiguous, positive, exact⟩
    rw [split] at climbs
    exact climbs.importedBest config
  · intro q seeded count countable unambiguous
    exact devChain_spec seeded countable unambiguous

/-! The first block on the development seed. Its key and the one signature that is asked for are
those of the curve. -/
namespace Recorded

def publicKey : Bytes :=
  .bigEndian 33 0x02989c0b76cb563971fdc9bef31ec06c3560f3249d6ee9e5d83c57625596e05f6f

def signature : Bytes :=
  .bigEndian 64
    0x763b6e1e250a1578a7caa5842466bf2253ef808ce228357e16c83ca92093d1ee17f4100087afeb33300d4d0f644cf891b9db07a1374b8a3ec812a3196686a2b7

def curve : SignatureScheme where
  Key := Unit
  keyOfSeed seed := if seed = devSeed then some () else none
  publicKey _ := publicKey
  sign _ _ := signature
  verify key _ given :=
    if key ≠ publicKey then .error .malformedKey
    else if given = signature then .ok () else .error .mismatch

theorem correct : curve.Correct := by
  intro seed key _ message
  simp [curve]

def producer : Producer curve := ⟨(), genesisBlock.header, 1⟩

theorem hashes_apart : ((genesisBlock :: (producer.blocks 1).1).map Block.hash).Nodup := by
  decide +kernel

end Recorded

theorem accepted_by_nodes_recorded :
    new? Recorded.curve devSeed = some Recorded.producer ∧ Recorded.curve.Correct ∧
      let made := (Recorded.producer.performAll [.blocks 1]).1
      (∀ block ∈ made, HeaderRule.signature.check Recorded.curve 0 block.header = .ok ()) ∧
      (∀ config front block rest, made = front ++ block :: rest →
        (((Chain.new genesisBlock config).offerAll front).offer block).1 = .importedBest) ∧
      ∃ chain, devChain Recorded.curve 1 = some chain ∧ chain.total.toNat = 2 := by
  have seeded : new? Recorded.curve devSeed = some Recorded.producer := rfl
  have unambiguous : Chain.Unambiguous genesisBlock (Recorded.producer.blocks 1).1 := by
    intro left first right second same
    exact congrArg Block.header
      (List.inj_on_of_nodup_map Recorded.hashes_apart first second same)
  have positive : ∀ block ∈ (Recorded.producer.performAll [.blocks 1]).1,
      0 < block.header.difficulty := by
    intro block member
    obtain rfl := List.mem_singleton.1 member
    decide
  obtain ⟨-, sound, taken, complete⟩ := accepted_by_nodes seeded Recorded.correct [.blocks 1]
  obtain ⟨chain, made, -, total, -⟩ := complete _ seeded 1 (by decide) unambiguous
  exact ⟨seeded, Recorded.correct, fun block member => (sound block member).2.1 0,
    (taken (by decide)).2 positive (by decide) unambiguous, chain, made, total⟩

end Producer

end BlockSync
