import BlockSync.Block
import BlockSync.Proofs.Wire.Numbers

/-! What headers are hashed over. The fields of a fixed width come first and each byte field
stands behind its length, so a header is known from its encoding, and all of it but the
signature from the signed one, which is never the encoding of any header. Hashes are known to
differ where the bytes under them do, collisions of the digest aside. -/
namespace BlockSync

theorem Bytes.bigEndian_append_inj {width m n : Nat} {rest more : Bytes} (hm : m < 256 ^ width)
    (hn : n < 256 ^ width) (same : bigEndian width m ++ rest = bigEndian width n ++ more) :
    m = n ∧ rest = more := by
  obtain ⟨numbers, others⟩ := List.append_inj same (by simp)
  have read := congrArg ofBigEndian numbers
  rw [ofBigEndian_bigEndian, ofBigEndian_bigEndian, Nat.mod_eq_of_lt hm, Nat.mod_eq_of_lt hn]
    at read
  exact ⟨read, others⟩

theorem Bytes.toNat_word_lt (w : BitVec 256) : w.toNat < 256 ^ 32 :=
  Nat.lt_of_lt_of_le w.isLt (by decide)

theorem Hash.toBytes_append_inj {h k : Hash} {rest more : Bytes}
    (same : h.toBytes ++ rest = k.toBytes ++ more) : h = k ∧ rest = more := by
  obtain ⟨words, others⟩ :=
    Bytes.bigEndian_append_inj (Bytes.toNat_word_lt h.word) (Bytes.toNat_word_lt k.word) same
  obtain ⟨h⟩ := h
  obtain ⟨k⟩ := k
  exact ⟨congrArg Hash.mk (BitVec.eq_of_toNat_eq words), others⟩

/-- Two messages with one digest. -/
def Hash.Collision (message other : Bytes) : Prop :=
  message ≠ other ∧ Hash.keccak message = Hash.keccak other

namespace Header

variable {h k : Header} {rest more : Bytes}

/-- The lengths of the byte fields fit in the four bytes they are written in. -/
structure Short (h : Header) : Prop where
  extraData : h.extraData.length < 2 ^ 32
  publicKey : h.publicKey.length < 2 ^ 32
  signature : h.signature.length < 2 ^ 32

def unsigned (h : Header) : Header :=
  { h with signature := [] }

theorem field_append_inj {bytes other : Bytes} (short : bytes.length < 2 ^ 32)
    (short' : other.length < 2 ^ 32) (same : field bytes ++ rest = field other ++ more) :
    bytes = other ∧ rest = more := by
  unfold field at same
  rw [List.append_assoc, List.append_assoc] at same
  obtain ⟨lengths, contents⟩ := Bytes.bigEndian_append_inj short short' same
  exact List.append_inj contents lengths

/-- Whatever follows them, signed encodings tell the fields that are signed. -/
theorem signedEncoding_append_inj (hs : h.Short) (ks : k.Short)
    (same : h.signedEncoding ++ rest = k.signedEncoding ++ more) :
    h.unsigned = k.unsigned ∧ rest = more := by
  unfold signedEncoding at same
  simp only [List.append_assoc] at same
  obtain ⟨number, same⟩ := Bytes.bigEndian_append_inj h.number.toNat_lt k.number.toNat_lt same
  obtain ⟨parent, same⟩ := Hash.toBytes_append_inj same
  obtain ⟨timestamp, same⟩ :=
    Bytes.bigEndian_append_inj h.timestamp.toNat_lt k.timestamp.toNat_lt same
  obtain ⟨difficulty, same⟩ := Bytes.bigEndian_append_inj (Bytes.toNat_word_lt h.difficulty)
    (Bytes.toNat_word_lt k.difficulty) same
  obtain ⟨root, same⟩ := Hash.toBytes_append_inj same
  obtain ⟨extra, same⟩ := field_append_inj hs.extraData ks.extraData same
  obtain ⟨key, same⟩ := field_append_inj hs.publicKey ks.publicKey same
  refine ⟨?_, same⟩
  unfold unsigned
  rw [UInt64.toNat_inj.1 number, parent, UInt64.toNat_inj.1 timestamp,
    BitVec.eq_of_toNat_eq difficulty, root, extra, key]

theorem signedEncoding_unsigned (h : Header) : h.unsigned.signedEncoding = h.signedEncoding :=
  rfl

theorem encoding_inj (hs : h.Short) (ks : k.Short) (same : h.encoding = k.encoding) : h = k := by
  obtain ⟨unsigned, fields⟩ := signedEncoding_append_inj hs ks same
  have signature : h.signature = k.signature := by
    rw [← List.append_nil (field h.signature), ← List.append_nil (field k.signature)] at fields
    exact (field_append_inj hs.signature ks.signature fields).1
  calc h = { h.unsigned with signature := h.signature } := rfl
    _ = { k.unsigned with signature := k.signature } := by rw [unsigned, signature]
    _ = k := rfl

theorem signedEncoding_eq_iff (hs : h.Short) (ks : k.Short) :
    h.signedEncoding = k.signedEncoding ↔ h.unsigned = k.unsigned := by
  constructor
  · intro same
    have alone : h.signedEncoding ++ [] = k.signedEncoding ++ [] := congrArg (· ++ []) same
    exact (signedEncoding_append_inj hs ks alone).1
  · intro same
    rw [← signedEncoding_unsigned h, same, signedEncoding_unsigned]

/-- The length of the signature is missing from what is signed. -/
theorem encoding_ne_signedEncoding (hs : h.Short) (ks : k.Short) :
    h.encoding ≠ k.signedEncoding := by
  intro same
  have alone : h.signedEncoding ++ field h.signature = k.signedEncoding ++ [] := by
    rw [List.append_nil]
    exact same
  have gone := congrArg List.length (signedEncoding_append_inj hs ks alone).2
  simp [field] at gone

/-- A header is known from the bytes that are hashed, and all but its signature from the bytes
that are signed; no header's hashed bytes are another's signed ones. So a hash that two headers
share, or two signed hashes, or a hash that is another's signed hash, comes of equal fields or
of a collision. -/
theorem determined_by_hashed_bytes (hs : h.Short) (ks : k.Short) :
    (h.encoding = k.encoding → h = k) ∧
    (h.signedEncoding = k.signedEncoding ↔ h.unsigned = k.unsigned) ∧
    h.encoding ≠ k.signedEncoding ∧
    (h.hash = k.hash → h = k ∨ Hash.Collision h.encoding k.encoding) ∧
    (h.mineHash = k.mineHash →
      h.unsigned = k.unsigned ∨ Hash.Collision h.signedEncoding k.signedEncoding) ∧
    (h.hash = k.mineHash → Hash.Collision h.encoding k.signedEncoding) := by
  refine ⟨encoding_inj hs ks, signedEncoding_eq_iff hs ks, encoding_ne_signedEncoding hs ks,
    ?_, ?_, ?_⟩
  · intro shared
    by_cases same : h.encoding = k.encoding
    · exact .inl (encoding_inj hs ks same)
    · exact .inr ⟨same, shared⟩
  · intro shared
    by_cases same : h.signedEncoding = k.signedEncoding
    · exact .inl ((signedEncoding_eq_iff hs ks).1 same)
    · exact .inr ⟨same, shared⟩
  · intro shared
    exact ⟨encoding_ne_signedEncoding hs ks, shared⟩

/-- A length moved from one byte field into the one before it, and signatures that differ. -/
theorem shifted_fields_determined :
    let wide : Header := { Header.empty with extraData := [0, 0, 0, 0], signature := [1] }
    let narrow : Header := { Header.empty with publicKey := [0, 0, 0, 0], signature := [2] }
    wide.Short ∧ narrow.Short ∧ wide.encoding ≠ narrow.encoding ∧
      wide.signedEncoding ≠ narrow.signedEncoding ∧ wide.encoding ≠ narrow.signedEncoding ∧
      (wide.hash = narrow.hash → Hash.Collision wide.encoding narrow.encoding) := by
  intro wide narrow
  have wide_short : wide.Short := ⟨by decide, by decide, by decide⟩
  have narrow_short : narrow.Short := ⟨by decide, by decide, by decide⟩
  have unequal : wide ≠ narrow := by decide
  have unlike : wide.unsigned ≠ narrow.unsigned := by decide
  obtain ⟨hashed, signed, apart, shared, -⟩ := determined_by_hashed_bytes wide_short narrow_short
  refine ⟨wide_short, narrow_short, fun same => unequal (hashed same),
    fun same => unlike (signed.1 same), apart, ?_⟩
  intro same
  exact (shared same).resolve_left unequal

end Header

end BlockSync
