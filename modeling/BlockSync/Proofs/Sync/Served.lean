import BlockSync.Proofs.Block.Assembly
import BlockSync.Proofs.Chain.Canonical
import BlockSync.Proofs.Sync.Screening
import BlockSync.Sync.Serving
import Mathlib.Data.List.TakeWhile

/-! What a chain serves. The blocks above a canonical one follow on it, as many as were
asked for and are there. Their headers pass the screening of a node that knows none of
them, their bodies are served for their hashes, and headers and bodies make the blocks
again. -/
namespace BlockSync

/-- Each block builds on the one before it, and the first on a hash with a number. -/
def Follows : Hash → UInt64 → List Block → Prop
  | _, _, [] => True
  | hash, number, block :: rest =>
    block.parentHash = hash ∧ block.number.toNat = number.toNat + 1 ∧
      Follows block.hash block.number rest

theorem toNat_add_one {number : UInt64} (room : number.toNat + 1 < 2 ^ 64) :
    (number + 1).toNat = number.toNat + 1 := by
  rw [UInt64.toNat_add, UInt64.toNat_one]
  exact Nat.mod_eq_of_lt room

namespace Chain

def canonicalFrom (c : Chain) : Nat → UInt64 → List Block
  | 0, _ => []
  | count + 1, number =>
    match c.blockByNumber? number with
    | some block => block :: canonicalFrom c count (number + 1)
    | none => []

variable {genesis tip block : Block} {c : Chain} {number : UInt64}

theorem named_of_mem_canonicalFrom {count : Nat} (member : block ∈ c.canonicalFrom count number) :
    ∃ place, c.blockByNumber? place = some block := by
  induction count generalizing number with
  | zero => cases member
  | succ count ih =>
    unfold canonicalFrom at member
    split at member
    · rename_i first named
      rcases List.mem_cons.1 member with rfl | later
      · exact ⟨number, named⟩
      · exact ih later
    · cases member

theorem CanonicalIndex.named (h : CanonicalIndex genesis c) (inside : number ≤ c.bestNumber) :
    ∃ block, c.blockByNumber? number = some block ∧ c.canonical[number.toNat]? = some block.hash ∧
      c.blockByHash? block.hash = some block ∧ block.number = number := by
  obtain ⟨block, entry, stored, same⟩ := h.entries number.toNat (UInt64.le_iff_toNat_le.1 inside)
  refine ⟨block, ?_, entry, stored, UInt64.toNat_inj.1 same⟩
  rw [blockByNumber?, entry]
  exact stored

theorem CanonicalIndex.inside (h : CanonicalIndex genesis c)
    (named : c.blockByNumber? number = some block) : number ≤ c.bestNumber := by
  rcases UInt64.lt_or_le c.bestNumber number with above | inside
  · rw [h.above number above] at named
    cases named
  · exact inside

theorem CanonicalIndex.stored (h : CanonicalIndex genesis c)
    (named : c.blockByNumber? number = some block) :
    c.blockByHash? block.hash = some block ∧ block.number = number := by
  obtain ⟨other, found, -, stored, same⟩ := h.named (h.inside named)
  rw [named, Option.some.injEq] at found
  subst found
  exact ⟨stored, same⟩

theorem CanonicalIndex.parentHash_eq (h : CanonicalIndex genesis c)
    (lower : c.blockByNumber? number = some tip)
    (upper : c.blockByNumber? (number + 1) = some block)
    (room : number.toNat + 1 < 2 ^ 64) : block.parentHash = tip.hash := by
  have next := toNat_add_one room
  have bound := UInt64.le_iff_toNat_le.1 (h.inside upper)
  obtain ⟨other, entry, stored, below⟩ := h.linked number.toNat (by omega)
  have same : c.blockByNumber? (number + 1) = some other := by
    rw [blockByNumber?, next, entry]
    exact stored
  rw [upper, Option.some.injEq] at same
  subst same
  obtain ⟨under, found, base, -⟩ := h.named (h.inside lower)
  rw [lower, Option.some.injEq] at found
  subst found
  rw [below, Option.some.injEq] at base
  exact base

/-- The blocks above a canonical one follow on it, up to the best block. -/
theorem CanonicalIndex.canonicalFrom_spec (h : CanonicalIndex genesis c)
    (limit : c.bestNumber.toNat + 1 < 2 ^ 64) (named : c.blockByNumber? number = some tip)
    (count : Nat) :
    Follows tip.hash tip.number (c.canonicalFrom count (number + 1)) ∧
      (c.canonicalFrom count (number + 1)).length = min count (c.bestNumber.toNat - number.toNat) ∧
      ∀ block, block ∈ c.canonicalFrom count (number + 1) ↔ ∃ place : UInt64, number < place ∧
        place.toNat ≤ number.toNat + count ∧ c.blockByNumber? place = some block := by
  induction count generalizing number tip with
  | zero =>
    refine ⟨trivial, by simp [canonicalFrom], fun block =>
      ⟨fun member => absurd member List.not_mem_nil, ?_⟩⟩
    rintro ⟨place, above, below, -⟩
    have strict := UInt64.lt_iff_toNat_lt.1 above
    omega
  | succ count ih =>
    have inside := UInt64.le_iff_toNat_le.1 (h.inside named)
    have next : (number + 1).toNat = number.toNat + 1 := toNat_add_one (by omega)
    unfold canonicalFrom
    split
    · rename_i block upper
      have bound := UInt64.le_iff_toNat_le.1 (h.inside upper)
      obtain ⟨follows, length, members⟩ := ih upper
      obtain ⟨lowest, own⟩ := h.stored named
      obtain ⟨-, numbered⟩ := h.stored upper
      refine ⟨⟨h.parentHash_eq named upper (by omega), by rw [numbered, own, next], follows⟩, ?_,
        fun other => ⟨fun member => ?_, ?_⟩⟩
      · rw [List.length_cons, length]
        omega
      · rcases List.mem_cons.1 member with rfl | later
        · exact ⟨number + 1, UInt64.lt_iff_toNat_lt.2 (by omega), by omega, upper⟩
        · obtain ⟨place, above, below, found⟩ := (members other).1 later
          have strict := UInt64.lt_iff_toNat_lt.1 above
          exact ⟨place, UInt64.lt_iff_toNat_lt.2 (by omega), by omega, found⟩
      · rintro ⟨place, above, below, found⟩
        have strict := UInt64.lt_iff_toNat_lt.1 above
        by_cases first : place.toNat = number.toNat + 1
        · have same : place = number + 1 := UInt64.toNat_inj.1 (by omega)
          rw [same, upper, Option.some.injEq] at found
          exact found ▸ List.mem_cons_self
        · exact List.mem_cons_of_mem _ ((members other).2
            ⟨place, UInt64.lt_iff_toNat_lt.2 (by omega), by omega, found⟩)
    · rename_i absent
      have top : c.bestNumber.toNat = number.toNat := by
        by_contra lower
        have below : number + 1 ≤ c.bestNumber := UInt64.le_iff_toNat_le.2 (by omega)
        obtain ⟨block, found, -⟩ := h.named below
        rw [absent] at found
        cases found
      refine ⟨trivial, by rw [top]; simp, fun block =>
        ⟨fun member => absurd member List.not_mem_nil, ?_⟩⟩
      rintro ⟨place, above, -, found⟩
      have strict := UInt64.lt_iff_toNat_lt.1 above
      have bound := UInt64.le_iff_toNat_le.1 (h.inside found)
      omega

/-- The canonical blocks from a number on, as many as are there. -/
theorem CanonicalIndex.canonicalFrom_eq (h : CanonicalIndex genesis c)
    (limit : c.bestNumber.toNat + 1 < 2 ^ 64) (count : Nat) (number : UInt64) :
    (c.canonicalFrom count number).map some =
      (List.range (min count (c.bestNumber.toNat + 1 - number.toNat))).map fun k =>
        c.blockByNumber? (UInt64.ofNat (number.toNat + k)) := by
  induction count generalizing number with
  | zero => simp [canonicalFrom]
  | succ count ih =>
    unfold canonicalFrom
    split
    · rename_i block named
      have inside := UInt64.le_iff_toNat_le.1 (h.inside named)
      have next : (number + 1).toNat = number.toNat + 1 := toNat_add_one (by omega)
      have one_less : min (count + 1) (c.bestNumber.toNat + 1 - number.toNat) =
          min count (c.bestNumber.toNat + 1 - (number + 1).toNat) + 1 := by omega
      rw [List.map_cons, ih, one_less, List.range_succ_eq_map, List.map_cons, List.map_map]
      refine congrArg₂ List.cons ?_ (List.map_congr_left fun k _ => ?_)
      · rw [Nat.add_zero, UInt64.ofNat_toNat, named]
      · rw [Function.comp_apply, next, Nat.add_assoc, Nat.add_comm 1]
    · rename_i absent
      have above : c.bestNumber.toNat < number.toNat := by
        by_contra low
        obtain ⟨block, named, -⟩ := h.named (UInt64.le_iff_toNat_le.2 (Nat.not_lt.1 low))
        rw [absent] at named
        cases named
      simp [Nat.sub_eq_zero_of_le above]

end Chain

variable {hash : Hash} {number : UInt64} {blocks : List Block}

theorem Follows.precedes_cons {tip : Block} (follows : Follows tip.hash tip.number blocks) :
    ((tip :: blocks).map Block.header).IsChain Header.Precedes := by
  induction blocks generalizing tip with
  | nil => exact .singleton _
  | cons block rest ih =>
    obtain ⟨link, count, later⟩ := follows
    exact List.isChain_cons_cons.2 ⟨⟨count.symm, link⟩, ih later⟩

theorem Follows.precedes (follows : Follows hash number blocks) :
    (blocks.map Block.header).IsChain Header.Precedes := by
  cases blocks with
  | nil => exact .nil
  | cons block rest => exact follows.2.2.precedes_cons

theorem Chain.CanonicalIndex.precedes_canonicalFrom {genesis : Block} {c : Chain}
    (h : c.CanonicalIndex genesis) (limit : c.bestNumber.toNat + 1 < 2 ^ 64) (count : Nat)
    (number : UInt64) : ((c.canonicalFrom count number).map Block.header).IsChain Header.Precedes := by
  cases count with
  | zero => exact .nil
  | succ count =>
    unfold canonicalFrom
    split
    · rename_i block named
      exact (h.canonicalFrom_spec limit named count).1.precedes_cons
    · exact .nil

/-- Of linked headers that all are valid those pass that are not known. -/
theorem Follows.screen_eq {validate : Validator} {known : Hash → Bool}
    (follows : Follows hash number blocks) (valid : ∀ block ∈ blocks, validate block.header = .ok ()) :
    screen validate known (blocks.map Block.header) =
      .ok ((blocks.filter fun block => !known block.hash).map Block.header) := by
  refine screen_eq_ok_iff.2 ⟨⟨List.forall_mem_map.2 valid, follows.precedes⟩, ?_⟩
  rw [List.filter_map]
  rfl

theorem Follows.screen_continuous {validate : Validator} {known : Hash → Bool}
    (follows : Follows hash number blocks) (gap : UInt64) :
    screen validate known (blocks.map Block.header) ≠ .error (.discontinuous gap) :=
  screen_ne_discontinuous follows.precedes gap

namespace Synchronizer

theorem headersFrom_eq (c : Chain) (count : Nat) (number : UInt64) :
    headersFrom c count number = (c.canonicalFrom count number).map Block.header := by
  induction count generalizing number with
  | zero => rfl
  | succ count ih =>
    rw [headersFrom, Chain.canonicalFrom]
    cases c.blockByNumber? number with
    | none => rfl
    | some block => rw [List.map_cons, ← ih]

def servedBlocks (c : Chain) (start : UInt64) (take : UInt32) : List Block :=
  c.canonicalFrom (min (min take.toNat maxServed) (UInt64.size - 1 - start.toNat)) start

theorem servedHeaders_eq (c : Chain) (start : UInt64) (take : UInt32) :
    servedHeaders c start take = (servedBlocks c start take).map Block.header :=
  headersFrom_eq c _ start

/-- Above a canonical block as many blocks are served as asked for, allowed and there. -/
theorem servedBlocks_spec {genesis tip : Block} {c : Chain} (h : c.CanonicalIndex genesis)
    (limit : c.bestNumber.toNat + 1 < 2 ^ 64) (named : c.blockByNumber? number = some tip)
    (take : UInt32) :
    let served := min (min take.toNat maxServed) (c.bestNumber.toNat - number.toNat)
    Follows tip.hash tip.number (servedBlocks c (number + 1) take) ∧
      (servedBlocks c (number + 1) take).length = served ∧
      ∀ block, block ∈ servedBlocks c (number + 1) take ↔ ∃ place : UInt64, number < place ∧
        place.toNat ≤ number.toNat + served ∧ c.blockByNumber? place = some block := by
  have inside := UInt64.le_iff_toNat_le.1 (h.inside named)
  have next : (number + 1).toNat = number.toNat + 1 := toNat_add_one (by omega)
  have words : UInt64.size = 2 ^ 64 := rfl
  obtain ⟨follows, length, members⟩ := h.canonicalFrom_spec limit named
    (min (min take.toNat maxServed) (UInt64.size - 1 - (number + 1).toNat))
  refine ⟨follows, ?_, fun block => (members block).trans ⟨?_, ?_⟩⟩
  · rw [servedBlocks, length]
    omega
  · rintro ⟨place, above, below, found⟩
    have bound := UInt64.le_iff_toNat_le.1 (h.inside found)
    exact ⟨place, above, by omega, found⟩
  · rintro ⟨place, above, below, found⟩
    exact ⟨place, above, by omega, found⟩

theorem bodiesOf_spec (c : Chain) (hashes : List Hash) :
    ∃ blocks : List Block,
      blocks.map some = (hashes.map c.blockByHash?).takeWhile Option.isSome ∧
      bodiesOf c hashes = blocks.map fun block => block.body.encode := by
  induction hashes with
  | nil => exact ⟨[], rfl, rfl⟩
  | cons hash rest ih =>
    rw [bodiesOf, List.map_cons]
    cases found : c.blockByHash? hash with
    | none => exact ⟨[], rfl, rfl⟩
    | some block =>
      obtain ⟨blocks, looked_up, served⟩ := ih
      exact ⟨block :: blocks, congrArg (some block :: ·) looked_up,
        congrArg (block.body.encode :: ·) served⟩

theorem bodiesOf_hashes {c : Chain}
    (stored : ∀ block ∈ blocks, c.blockByHash? block.hash = some block) :
    bodiesOf c (blocks.map Block.hash) = blocks.map fun block => block.body.encode := by
  induction blocks with
  | nil => rfl
  | cons block rest ih =>
    rw [List.map_cons, bodiesOf, stored block List.mem_cons_self]
    dsimp only
    rw [ih fun other member => stored other (List.mem_cons_of_mem _ member), List.map_cons]

theorem servedBodies_hashes {c : Chain} (few : blocks.length ≤ maxServed)
    (stored : ∀ block ∈ blocks, c.blockByHash? block.hash = some block) :
    servedBodies c (blocks.map Block.hash) = blocks.map fun block => block.body.encode := by
  rw [servedBodies, List.take_of_length_le (by rw [List.length_map]; exact few),
    bodiesOf_hashes stored]

end Synchronizer

/-- Headers and encoded bodies of blocks make the blocks again, up to the first whose header names
another root. -/
theorem Synchronizer.assemble_encode_eq
    (bounds : ∀ block ∈ blocks, block.body.encode.length < 2 ^ 64) :
    assemble (blocks.map Block.header) (blocks.map fun block => block.body.encode) =
      blocks.takeWhile fun block => block.body.root = block.header.txRoot := by
  induction blocks with
  | nil => rfl
  | cons block rest ih =>
    rw [List.map_cons, List.map_cons, assemble,
      Block.assemble?_encode_eq (bounds block List.mem_cons_self), List.takeWhile_cons]
    by_cases root : block.body.root = block.header.txRoot
    · simp [root, ih fun other member => bounds other (List.mem_cons_of_mem _ member)]
    · simp [root]

theorem Synchronizer.assemble_encode
    (roots : ∀ block ∈ blocks, block.body.root = block.header.txRoot)
    (bounds : ∀ block ∈ blocks, block.body.encode.length < 2 ^ 64) :
    assemble (blocks.map Block.header) (blocks.map fun block => block.body.encode) = blocks := by
  rw [assemble_encode_eq bounds, List.takeWhile_eq_self_iff]
  exact fun block member => decide_eq_true (roots block member)

end BlockSync
