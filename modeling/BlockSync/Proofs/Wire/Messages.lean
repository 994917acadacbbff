import BlockSync.Proofs.Wire.Exactness

/-! Each message has one encoding. A message is read back from its body, and a body that
decodes begins with the body of the message that it gives; so no part of a body decodes, and
no two messages of a kind share one. The zone of an address is not written, so this holds of
addresses without. -/
namespace BlockSync

namespace Layout

theorem faithful_bool : bool.Faithful := by
  intro value _
  have small : value.toNat < 256 ^ 1 := by cases value <;> decide
  refine (reads_number small).convert ?_
  cases value <;> rfl

theorem faithful_text : text.Faithful := by
  refine faithful_bytes.convert ?_
  intro s
  have whole : ByteArray.mk s.toUTF8.toList.toArray = s.toUTF8 := by
    rw [Bytes.toList_byteArray, Array.toArray_toList]
  have read : String.fromUTF8? s.toUTF8 = some s := dif_pos s.isValidUTF8
  rw [whole, read]

theorem reads_raw {width : Nat} {value : Bytes} (size : value.length = width) :
    (raw width).Reads value := by
  intro rest
  rw [← size]
  exact Bytes.takeExactly_append value rest

theorem ofNat_bigEndian (width : Nat) (w : BitVec (8 * width)) :
    BitVec.ofNat (8 * width) (Bytes.ofBigEndian (Bytes.bigEndian width w.toNat)) = w := by
  have small : w.toNat < 256 ^ width := by
    rw [show 256 = 2 ^ 8 from rfl, ← Nat.pow_mul]
    exact w.isLt
  rw [Bytes.ofBigEndian_bigEndian, Nat.mod_eq_of_lt small, BitVec.ofNat_toNat, BitVec.setWidth_eq]

theorem reads_octets (width : Nat) (w : BitVec (8 * width)) : (octets width).Reads w := by
  have written : (raw width).Reads (Bytes.bigEndian width w.toNat) :=
    reads_raw (Bytes.length_bigEndian width _)
  refine Reads.convert (l := raw width) ?_ (congrArg Except.ok (ofNat_bigEndian width w))
  exact written

theorem faithful_nodeId : nodeId.Faithful := by
  intro id _
  have written : (raw 32).Reads id.toBytes := reads_raw (Bytes.length_bigEndian 32 _)
  have same : NodeId.ofBytes id.toBytes = id :=
    congrArg NodeId.mk (ofNat_bigEndian 32 id.word)
  exact written.convert (congrArg Except.ok same)

theorem reads_u16 (n : UInt16) : u16.Reads n :=
  faithful_u16 n (by change (Bytes.littleEndian 2 _).length < _; simp)

theorem faithful_ip : ip.Faithful := by
  intro value _
  cases value with
  | v4 w =>
    refine Reads.tagged (t := 0) rfl (by decide) fun rest => ?_
    rw [if_pos rfl, reads_octets 4 w]
    rfl
  | v6 w =>
    refine Reads.tagged (t := 1) rfl (by decide) fun rest => ?_
    rw [if_neg (by decide), if_pos rfl, reads_octets 16 w]
    rfl

end Layout

/-- The address is in no zone, or in the one that needs no number. -/
def SocketAddress.Unscoped : SocketAddress → Prop
  | .v4 .. => True
  | .v6 _ _ zone => zone = 0

namespace Layout

theorem reads_socketAddress {a : SocketAddress} (plain : a.Unscoped) : socketAddress.Reads a := by
  cases a with
  | v4 w port =>
    have both : ((octets 4).pair u16).Reads (w, port) := by
      refine Reads.pair ?_ (reads_u16 port)
      exact reads_octets 4 w
    refine Reads.tagged (t := 0) rfl (by decide) fun rest => ?_
    rw [if_pos rfl, both]
    rfl
  | v6 w port zone =>
    cases plain
    have both : ((octets 16).pair u16).Reads (w, port) := by
      refine Reads.pair ?_ (reads_u16 port)
      exact reads_octets 16 w
    refine Reads.tagged (t := 1) rfl (by decide) fun rest => ?_
    rw [if_neg (by decide), if_pos rfl, both]
    rfl

theorem unscoped_of_read {a : SocketAddress} {raw rest : Bytes}
    (read : socketAddress.read raw = .ok (a, rest)) : a.Unscoped := by
  obtain ⟨parts, -, chosen⟩ := Except.bind_eq_ok read
  dsimp only at chosen
  split at chosen
  · obtain ⟨parts, -, made⟩ := Except.map_eq_ok chosen
    cases made
    trivial
  · split at chosen
    · obtain ⟨parts, -, made⟩ := Except.map_eq_ok chosen
      cases made
      rfl
    · cases chosen

theorem reads_nodeAddress {n : NodeAddress} (plain : n.address.Unscoped) : nodeAddress.Reads n := by
  have short : (nodeId.write n.node).length < 2 ^ 64 := by
    change (Bytes.bigEndian 32 _).length < _
    rw [Bytes.length_bigEndian]
    decide
  have both : (nodeId.pair socketAddress).Reads (n.node, n.address) := by
    refine Reads.pair ?_ (reads_socketAddress plain)
    exact faithful_nodeId n.node short
  refine Reads.convert (l := nodeId.pair socketAddress) ?_ rfl
  exact both

theorem nodeAddress_write_ne_nil (n : NodeAddress) : nodeAddress.write n ≠ [] := by
  refine List.ne_nil_of_length_pos ?_
  change 0 < (Bytes.bigEndian 32 _ ++ _).length
  rw [List.length_append, Bytes.length_bigEndian]
  omega

theorem u16_write_ne_nil (n : UInt16) : u16.write n ≠ [] :=
  List.ne_nil_of_length_pos (by change 0 < (Bytes.littleEndian 2 _).length; simp)

theorem faithful_handshakeRequest : handshakeRequest.Faithful :=
  (faithful_nodeId.pair (faithful_u32.pair (faithful_ip.pair (faithful_u16.pair (faithful_text.pair
    (faithful_u16.list u16_write_ne_nil)))))).convert fun _ => rfl

theorem faithful_handshakeReply : handshakeReply.Faithful :=
  (faithful_bool.pair faithful_text).convert fun _ => rfl

end Layout

namespace Message

variable {m n : Message} {kind : Kind} {raw : Bytes}

/-- No address that the message names is in a numbered zone. -/
def Unscoped : Message → Prop
  | resActiveNodes nodes => ∀ node ∈ nodes, node.address.Unscoped
  | _ => True

/-- A message is read back from its body, whatever follows it. -/
theorem ofBody_of_body (plain : m.Unscoped) (bound : m.body.length < 2 ^ 64) (rest : Bytes) :
    ofBody m.kind (m.body ++ rest) = .ok m := by
  cases m with
  | reqHandshake request =>
    exact Layout.faithful_handshakeRequest.map_decode bound reqHandshake rest
  | resHandshake reply => exact Layout.faithful_handshakeReply.map_decode bound resHandshake rest
  | reqActiveNodes | disconnect => rfl
  | resActiveNodes nodes =>
    have size : 8 + (nodes.flatMap Layout.nodeAddress.write).length < 2 ^ 64 := by
      rw [← Bytes.length_littleEndian 8 nodes.length, ← List.length_append]
      exact bound
    have count := Layout.length_le_flatMap_write Layout.nodeAddress_write_ne_nil nodes
    have read : (Layout.list Layout.nodeAddress).Reads nodes :=
      Layout.Reads.list (fun node member => Layout.reads_nodeAddress (plain node member)) (by omega)
    exact congrArg (·.map resActiveNodes) (read.decode rest)
  | reqStatus | resStatus | reqBlocksHeaders | resBlocksHeaders | reqBlocksBodies
  | resBlocksBodies => exact ofBody_body rfl bound rest

/-- A body that decodes to a message of its kind begins with the body of that message. -/
theorem body_prefix_of_ofBody (decoded : ofBody kind raw = .ok m) :
    m.kind = kind ∧ m.body <+: raw := by
  cases kind with
  | reqActiveNodes | disconnect | reqStatus =>
    cases decoded
    exact ⟨rfl, List.nil_prefix⟩
  | reqHandshake =>
    obtain ⟨_, rfl, front⟩ := Layout.exact_handshakeRequest.of_map_decode decoded
    exact ⟨rfl, front⟩
  | resHandshake =>
    obtain ⟨_, rfl, front⟩ := Layout.exact_handshakeReply.of_map_decode decoded
    exact ⟨rfl, front⟩
  | resActiveNodes =>
    obtain ⟨_, rfl, front⟩ := Layout.exact_nodeAddress.list.of_map_decode decoded
    exact ⟨rfl, front⟩
  | resStatus =>
    obtain ⟨_, rfl, front⟩ := Layout.exact_peerStatus.of_map_decode decoded
    exact ⟨rfl, front⟩
  | reqBlocksHeaders =>
    obtain ⟨_, rfl, front⟩ := (Layout.exact_u64.pair Layout.exact_u32).of_map_decode decoded
    exact ⟨rfl, front⟩
  | resBlocksHeaders =>
    obtain ⟨_, rfl, front⟩ := Layout.exact_header.list.of_map_decode decoded
    exact ⟨rfl, front⟩
  | reqBlocksBodies =>
    obtain ⟨_, rfl, front⟩ := Layout.exact_hash.list.of_map_decode decoded
    exact ⟨rfl, front⟩
  | resBlocksBodies =>
    obtain ⟨_, rfl, front⟩ := Layout.exact_bytes.list.of_map_decode decoded
    exact ⟨rfl, front⟩

theorem unscoped_of_ofBody (decoded : ofBody kind raw = .ok m) : m.Unscoped := by
  cases kind with
  | resActiveNodes =>
    obtain ⟨nodes, found, rfl⟩ := Except.map_eq_ok decoded
    obtain ⟨parts, read, rfl⟩ := Except.map_eq_ok found
    obtain ⟨count, -, filled⟩ := Except.bind_eq_ok read
    refine Layout.forall_of_readMany ?_ (fun _ member => absurd member List.not_mem_nil) filled
    intro raw node rest one
    obtain ⟨pair, fields, converted⟩ := Except.bind_eq_ok one
    cases converted
    obtain ⟨front, -, back⟩ := Except.bind_eq_ok fields
    obtain ⟨address, second, result⟩ := Except.bind_eq_ok back
    cases result
    exact Layout.unscoped_of_read second
  | reqActiveNodes | disconnect | reqStatus =>
    cases decoded
    trivial
  | reqHandshake | resHandshake | resStatus | reqBlocksHeaders | resBlocksHeaders | reqBlocksBodies
  | resBlocksBodies =>
    obtain ⟨_, -, rfl⟩ := Except.map_eq_ok decoded
    trivial

theorem eq_of_body_prefix (plain : m.Unscoped) (bound : m.body.length < 2 ^ 64)
    (plain' : n.Unscoped) (alike : n.kind = m.kind) (front : n.body <+: m.body) : n = m := by
  obtain ⟨rest, split⟩ := front
  have short : n.body.length < 2 ^ 64 := by
    rw [← split, List.length_append] at bound
    omega
  have read := ofBody_of_body plain' short rest
  rw [split, alike, ← List.append_nil m.body, ofBody_of_body plain bound] at read
  exact (Except.ok.inj read).symm

/-- A message of a length that can be counted is read back from its body, whatever comes behind
it, but from no part of its body, and no other message of its kind has that body. Any bytes that are read as a message of
some kind begin with the body of the message. -/
theorem one_body_for_each :
    (∀ m : Message, m.Unscoped → m.body.length < 2 ^ 64 →
      (∀ rest, ofBody m.kind (m.body ++ rest) = .ok m) ∧
      (∀ cut, cut <+: m.body → cut ≠ m.body → ∃ e, ofBody m.kind cut = .error e) ∧
      ∀ n : Message, n.Unscoped → n.kind = m.kind → n.body = m.body → n = m) ∧
    ∀ kind raw m, ofBody kind raw = .ok m → m.kind = kind ∧ m.body <+: raw := by
  refine ⟨fun m plain bound => ⟨ofBody_of_body plain bound, ?_, ?_⟩,
    fun _ _ _ => body_prefix_of_ofBody⟩
  · intro cut inside strict
    cases decoded : ofBody m.kind cut with
    | error e => exact ⟨e, rfl⟩
    | ok n =>
      -- what is read would be the message itself, and its body no longer than the cut
      obtain ⟨alike, front⟩ := body_prefix_of_ofBody decoded
      have same := eq_of_body_prefix plain bound (unscoped_of_ofBody decoded) alike
        (front.trans inside)
      rw [same] at front
      exact absurd (inside.eq_of_length_le front.length_le) strict
  · intro n plain' alike same
    exact eq_of_body_prefix plain bound plain' alike (same ▸ List.prefix_rfl)

/-- A node at an address without a zone, told with bytes behind it and with its last byte
missing. -/
theorem one_body_for_nodes :
    let told : Message := .resActiveNodes [⟨⟨5⟩, .v6 1 30303 0⟩]
    told.Unscoped ∧ told.body.length < 2 ^ 64 ∧ ofBody .resActiveNodes (told.body ++ [7]) = .ok told ∧
      (∃ e, ofBody .resActiveNodes told.body.dropLast = .error e) ∧
      ofBody .disconnect [7] = .ok .disconnect ∧ body .disconnect <+: [7] := by
  intro told
  have plain : told.Unscoped := by simp [told, Unscoped, SocketAddress.Unscoped]
  have short : told.body.length < 2 ^ 64 := by decide
  obtain ⟨read, cut, -⟩ := one_body_for_each.1 told plain short
  have read_empty : ofBody .disconnect [7] = .ok .disconnect := rfl
  exact ⟨plain, short, read [7], cut _ (List.dropLast_prefix _) (by decide), read_empty,
    (one_body_for_each.2 _ _ _ read_empty).2⟩

end Message

end BlockSync
