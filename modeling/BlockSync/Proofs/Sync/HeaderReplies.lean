import BlockSync.Proofs.Sync.Progress

/-! Replies to requests for headers. A request names the number to start at and how many headers
are wanted. The reply has the headers of the canonical blocks from that number on, up to the best
block and never more than a fixed number, so it is short above the best block and empty from there
on, up to the greatest number. The headers are linked, so that they pass the screening of any node
whose validator accepts them. -/
namespace BlockSync.Synchronizer

/-- The headers of so many canonical blocks in a row, from a number on. They are those that the
chain has under their numbers, on the way from the best block down. -/
structure Stretch (c : Chain) (first : UInt64) (count : Nat) (headers : List Header) : Prop where
  named : headers.map some = (List.range count).map fun k =>
    (c.blockByNumber? (UInt64.ofNat (first.toNat + k))).map Block.header
  canonical : headers.map some = (List.range count).map fun k =>
    (c.ancestor? (c.bestNumber.toNat - (first.toNat + k))).map Block.header
  numbered : ∀ k h, headers[k]? = some h → h.number.toNat = first.toNat + k
  linked : headers.IsChain Header.Precedes

variable {genesis : Block} {c : Chain} {s : Synchronizer} {first : UInt64} {count : Nat}

theorem servedHeaders_map_some (index : c.CanonicalIndex genesis)
    (limit : c.bestNumber.toNat + 1 < 2 ^ 64) (first : UInt64) (take : UInt32) :
    (servedHeaders c first take).map some =
      (List.range (min (min take.toNat maxServed) (c.bestNumber.toNat + 1 - first.toNat))).map fun k =>
        (c.blockByNumber? (UInt64.ofNat (first.toNat + k))).map Block.header := by
  have words : UInt64.size = 2 ^ 64 := rfl
  -- the best block has not the greatest number, so that the end of the words cuts nothing off
  have same : min (min (min take.toNat maxServed) (UInt64.size - 1 - first.toNat))
      (c.bestNumber.toNat + 1 - first.toNat) =
        min (min take.toNat maxServed) (c.bestNumber.toNat + 1 - first.toNat) := by omega
  have blocks := congrArg (List.map (Option.map Block.header)) (index.canonicalFrom_eq limit
    (min (min take.toNat maxServed) (UInt64.size - 1 - first.toNat)) first)
  rw [same, List.map_map, List.map_map] at blocks
  rw [servedHeaders_eq, List.map_map]
  exact blocks

/-- A place up to the best block has one block, under its number and on the way down. -/
theorem named_eq_ancestor (index : c.CanonicalIndex genesis) {place : Nat}
    (inside : place ≤ c.bestNumber.toNat) :
    c.blockByNumber? (UInt64.ofNat place) = c.ancestor? (c.bestNumber.toNat - place) ∧
      ∀ block, c.blockByNumber? (UInt64.ofNat place) = some block → block.number.toNat = place := by
  have word : (UInt64.ofNat place).toNat = place :=
    UInt64.toNat_ofNat_of_lt (Nat.lt_of_le_of_lt inside c.bestNumber.toNat_lt)
  have below : UInt64.ofNat place ≤ c.bestNumber := UInt64.le_iff_toNat_le.2 (by rwa [word])
  obtain ⟨block, named, number, found⟩ := index.by_number _ below
  rw [word] at found
  refine ⟨named.trans found.symm, fun other same => ?_⟩
  rw [named, Option.some.injEq] at same
  rw [← same, number, word]

theorem stretch_servedHeaders (index : c.CanonicalIndex genesis)
    (limit : c.bestNumber.toNat + 1 < 2 ^ 64) (first : UInt64) (take : UInt32) :
    Stretch c first (min (min take.toNat maxServed) (c.bestNumber.toNat + 1 - first.toNat))
      (servedHeaders c first take) where
  named := servedHeaders_map_some index limit first take
  canonical := by
    rw [servedHeaders_map_some index limit first take]
    refine List.map_congr_left fun k listed => ?_
    have bound := List.mem_range.1 listed
    rw [(named_eq_ancestor index (by omega)).1]
  numbered k h placed := by
    have here := congrArg (·[k]?) (servedHeaders_map_some index limit first take)
    simp only [List.getElem?_map, placed, Option.map_some] at here
    obtain ⟨place, listed, named⟩ := Option.map_eq_some_iff.1 here.symm
    obtain ⟨bound, rfl⟩ := List.getElem?_eq_some_iff.1 listed
    rw [List.getElem_range] at named
    rw [List.length_range] at bound
    obtain ⟨block, found, rfl⟩ := Option.map_eq_some_iff.1 named
    exact (named_eq_ancestor index (by omega)).2 block found
  linked := by
    rw [servedHeaders_eq]
    exact index.precedes_canonicalFrom limit _ first

/-- Whatever was delivered before, a request for headers is answered with those of the canonical
blocks from its number on, as many as it asks for, as are served at once and as are there. They
leave no gap, and they all pass if the validator accepts them, but for those that are known. -/
theorem headers_reply_of_history (start : genesis.number = 0)
    (reached : ∃ config deliveries, s.chain = .history genesis config deliveries)
    (countable : s.chain.blockCount < 2 ^ 64) (nonzero : s.chain.blockByHash? .zero = none)
    (peer : PeerId) (displayId : String) (first : UInt64) (take : UInt32) :
    ∃ headers,
      s.receive peer displayId (Message.reqBlocksHeaders first take).envelope =
        some (if s.network.accepts peer then
          s.emit (.send peer displayId (.resBlocksHeaders headers)) else s) ∧
      Stretch s.chain first
        (min (min take.toNat maxServed) (s.chain.bestNumber.toNat + 1 - first.toNat)) headers ∧
      ∀ (validate : Validator) (known : Hash → Bool),
        (∀ gap, screen validate known headers ≠ .error (.discontinuous gap)) ∧
        ((∀ h ∈ headers, validate h = .ok ()) →
          screen validate known headers = .ok (headers.filter fun h => !known h.hash)) := by
  obtain ⟨index, limit⟩ := Chain.index_of_reached start reached countable nonzero
  have stretch := stretch_servedHeaders index limit first take
  refine ⟨servedHeaders s.chain first take, ?_, stretch, fun validate known => ⟨?_, ?_⟩⟩
  · rw [receive_envelope rfl (Message.fits_reqBlocksHeaders first take), handle, reply_eq]
  · exact screen_ne_discontinuous stretch.linked
  · intro valid
    exact screen_eq_ok_iff.2 ⟨⟨valid, stretch.linked⟩, rfl⟩

/-- A hundred headers are wanted and there are two, and of the greatest number there is none. -/
theorem headers_reply_of_fork : ∃ s : Synchronizer,
    s.chain = .history Chain.Fork.start {} [.block Chain.Fork.first] ∧
      s.receive ⟨1⟩ "a" (Message.reqBlocksHeaders 0 100).envelope =
        some (s.emit (.send ⟨1⟩ "a"
          (.resBlocksHeaders [Chain.Fork.start.header, Chain.Fork.first.header]))) ∧
      s.receive ⟨1⟩ "a" (Message.reqBlocksHeaders (.ofNat (2 ^ 64 - 1)) 1).envelope =
        some (s.emit (.send ⟨1⟩ "a" (.resBlocksHeaders []))) := by
  obtain ⟨longer, grown⟩ : ∃ longer : Chain,
    longer = .history Chain.Fork.start {} [.block Chain.Fork.first] := ⟨_, rfl⟩
  obtain ⟨s, same, accepts⟩ := exists_server longer
  have best : s.chain.bestNumber = 1 := same ▸ (Chain.Fork.longer_best grown).2
  have reply := headers_reply_of_history (s := s) rfl ⟨_, _, same.trans grown⟩
    (same ▸ Chain.Fork.longer_countable grown) (same ▸ Chain.Fork.longer_nonzero grown) ⟨1⟩ "a"
  simp only [accepts, if_true] at reply
  refine ⟨s, same.trans grown, ?_, ?_⟩
  · obtain ⟨headers, sent, stretch, -⟩ := reply 0 100
    have listed := stretch.named
    have two : min (min (100 : UInt32).toNat maxServed) ((1 : UInt64).toNat + 1 - (0 : UInt64).toNat) =
        2 := rfl
    rw [best, two, same] at listed
    simp only [List.range_succ, List.range_zero, List.nil_append, List.map_append, List.map_cons,
      List.map_nil] at listed
    have both : headers = [Chain.Fork.start.header, Chain.Fork.first.header] := by
      apply List.map_injective_iff.2 (Option.some_injective Header)
      rw [listed]
      exact congrArg₂ (fun zero one => [Option.map Block.header zero, Option.map Block.header one])
        (Chain.Fork.longer_zero grown) (Chain.Fork.longer_one grown)
    rwa [both] at sent
  · obtain ⟨headers, sent, stretch, -⟩ := reply (.ofNat (2 ^ 64 - 1)) 1
    have listed := stretch.named
    have none : min (min (1 : UInt32).toNat maxServed)
        ((1 : UInt64).toNat + 1 - (UInt64.ofNat (2 ^ 64 - 1)).toNat) = 0 := rfl
    rw [best, none, List.range_zero, List.map_nil, List.map_eq_nil_iff] at listed
    subst listed
    exact sent

end BlockSync.Synchronizer
