import BlockSync.Proofs.Wire.Numbers
import BlockSync.Wire.Message

/-! What layouts write they read back, whatever bytes follow, as long as lengths fit in
the eight bytes they are written in. That holds of a pair if it holds of its parts, and
of a list if it holds of the elements and none of them is written as nothing. -/
namespace BlockSync

namespace Layout

variable {α β : Type} {l : Layout α} {m : Layout β}

def Reads (l : Layout α) (value : α) : Prop :=
  ∀ rest, l.read (l.write value ++ rest) = .ok (value, rest)

/-- Every value that takes fewer than `2 ^ 64` bytes is read back. -/
def Faithful (l : Layout α) : Prop :=
  ∀ value, (l.write value).length < 2 ^ 64 → l.Reads value

theorem Reads.decode {value : α} (h : l.Reads value) (rest : Bytes) :
    l.decode (l.write value ++ rest) = .ok value := by
  rw [Layout.decode, h rest]
  rfl

theorem Faithful.map_decode (h : l.Faithful) {value : α}
    (bound : (l.write value).length < 2 ^ 64) (f : α → β) (rest : Bytes) :
    (l.decode (l.write value ++ rest)).map f = .ok (f value) := by
  rw [(h value bound).decode rest]
  rfl

theorem reads_number {width n : Nat} (bound : n < 256 ^ width) : (number width).Reads n := by
  intro rest
  have front := Bytes.takeExactly_append (Bytes.littleEndian width n) rest
  rw [Bytes.length_littleEndian] at front
  change (Bytes.takeExactly width (Bytes.littleEndian width n ++ rest) >>= _) = _
  rw [front]
  change Except.ok (Bytes.ofLittleEndian (Bytes.littleEndian width n), rest) = _
  rw [Bytes.ofLittleEndian_littleEndian, Nat.mod_eq_of_lt bound]

theorem Reads.convert {forth : α → Except LayoutError β} {back : β → α} {value : β}
    (h : l.Reads (back value)) (same : forth (back value) = .ok value) :
    (l.convert forth back).Reads value := by
  intro rest
  change (l.read (l.write (back value) ++ rest) >>= _) = _
  rw [h rest]
  change (forth (back value) >>= _) = _
  rw [same]
  rfl

theorem Reads.pair {value : α × β} (h : l.Reads value.1) (k : m.Reads value.2) :
    (l.pair m).Reads value := by
  intro rest
  change (l.read ((l.write value.1 ++ m.write value.2) ++ rest) >>= _) = _
  rw [List.append_assoc, h]
  change (m.read (m.write value.2 ++ rest) >>= _) = _
  rw [k]
  rfl

theorem readMany_write {values : List α} (h : ∀ value ∈ values, l.Reads value) (done : List α)
    (rest : Bytes) :
    readMany l values.length done (values.flatMap l.write ++ rest) =
      .ok (done.reverse ++ values, rest) := by
  induction values generalizing done with
  | nil => simp [readMany]
  | cons first others ih =>
    have next := ih (fun value member => h value (List.mem_cons_of_mem _ member)) (first :: done)
    rw [List.length_cons, readMany, List.flatMap_cons, List.append_assoc,
      h first List.mem_cons_self]
    change readMany l others.length (first :: done) (others.flatMap l.write ++ rest) = _
    rw [next, List.reverse_cons, List.append_assoc, List.singleton_append]

theorem Reads.list {values : List α} (h : ∀ value ∈ values, l.Reads value)
    (bound : values.length < 2 ^ 64) : (list l).Reads values := by
  intro rest
  change ((number 8).read
    (((number 8).write values.length ++ values.flatMap l.write) ++ rest) >>= _) = _
  rw [List.append_assoc, reads_number bound]
  exact readMany_write h [] rest

theorem Faithful.pair (h : l.Faithful) (k : m.Faithful) : (l.pair m).Faithful := by
  intro value bound
  have size : (l.write value.1).length + (m.write value.2).length < 2 ^ 64 := by
    rw [← List.length_append]
    exact bound
  exact (h value.1 (by omega)).pair (k value.2 (by omega))

theorem Faithful.convert {forth : α → Except LayoutError β} {back : β → α} (h : l.Faithful)
    (same : ∀ value, forth (back value) = .ok value) : (l.convert forth back).Faithful :=
  fun value bound => (h (back value) bound).convert (same value)

theorem length_le_flatMap_write (nonempty : ∀ value, l.write value ≠ []) (values : List α) :
    values.length ≤ (values.flatMap l.write).length := by
  induction values with
  | nil => exact Nat.le_refl 0
  | cons first rest ih =>
    have positive := List.length_pos_iff.2 (nonempty first)
    rw [List.flatMap_cons, List.length_append, List.length_cons]
    omega

theorem length_write_le_of_mem {values : List α} {value : α} (member : value ∈ values) :
    (l.write value).length ≤ (values.flatMap l.write).length := by
  induction member with
  | head rest =>
    rw [List.flatMap_cons, List.length_append]
    exact Nat.le_add_right _ _
  | tail first _ ih =>
    rw [List.flatMap_cons, List.length_append]
    exact Nat.le_trans ih (Nat.le_add_left _ _)

theorem Faithful.list (h : l.Faithful) (nonempty : ∀ value, l.write value ≠ []) :
    (list l).Faithful := by
  intro values bound
  have size : 8 + (values.flatMap l.write).length < 2 ^ 64 := by
    rw [← Bytes.length_littleEndian 8 values.length, ← List.length_append]
    exact bound
  have count := length_le_flatMap_write nonempty values
  refine Reads.list (fun value member => h value ?_) (by omega)
  have part := length_write_le_of_mem (l := l) member
  omega

theorem reads_bytes {value : Bytes} (bound : value.length < 2 ^ 64) : bytes.Reads value := by
  intro rest
  change ((number 8).read (((number 8).write value.length ++ value) ++ rest) >>= _) = _
  rw [List.append_assoc, reads_number bound]
  exact Bytes.takeExactly_append value rest

theorem faithful_bytes : bytes.Faithful := by
  intro value bound
  have size : 8 + value.length < 2 ^ 64 := by
    rw [← Bytes.length_littleEndian 8 value.length, ← List.length_append]
    exact bound
  exact reads_bytes (by omega)

theorem reads_sized {width : Nat} {value : Bytes} (same : value.length = width)
    (bound : width < 2 ^ 64) : (sized width).Reads value :=
  (reads_bytes (same ▸ bound)).convert (if_pos same)

theorem faithful_u8 : u8.Faithful := fun value _ =>
  (reads_number value.toNat_lt).convert (by rw [UInt8.ofNat_toNat])

theorem faithful_u16 : u16.Faithful := fun value _ =>
  (reads_number value.toNat_lt).convert (by rw [UInt16.ofNat_toNat])

theorem faithful_u32 : u32.Faithful := fun value _ =>
  (reads_number value.toNat_lt).convert (by rw [UInt32.ofNat_toNat])

theorem faithful_u64 : u64.Faithful := fun value _ =>
  (reads_number value.toNat_lt).convert (by rw [UInt64.ofNat_toNat])

theorem reads_word (value : BitVec 256) : word.Reads value := by
  have same : Bytes.ofBigEndian (Bytes.bigEndian 32 value.toNat) = value.toNat := by
    rw [Bytes.ofBigEndian_bigEndian]
    exact Nat.mod_eq_of_lt (Nat.lt_of_lt_of_le value.isLt (by decide))
  refine Reads.convert (reads_sized (Bytes.length_bigEndian 32 _) (by decide)) ?_
  rw [same, BitVec.ofNat_toNat, BitVec.setWidth_eq]

theorem faithful_word : word.Faithful :=
  fun value _ => reads_word value

theorem faithful_hash : hash.Faithful :=
  faithful_word.convert fun _ => rfl

theorem faithful_header : header.Faithful :=
  (faithful_u64.pair (faithful_hash.pair (faithful_u64.pair (faithful_word.pair (faithful_hash.pair
    (faithful_bytes.pair (faithful_bytes.pair faithful_bytes))))))).convert fun _ => rfl

theorem faithful_peerStatus : peerStatus.Faithful :=
  (faithful_u64.pair (faithful_hash.pair (faithful_word.pair (faithful_hash.pair (faithful_u8.pair
    (faithful_u16.pair (faithful_u32.pair faithful_u32))))))).convert fun _ => rfl

theorem length_bytes_write (value : Bytes) : (bytes.write value).length = 8 + value.length := by
  change (Bytes.littleEndian 8 _ ++ value).length = _
  rw [List.length_append, Bytes.length_littleEndian]

theorem length_hash_write (value : Hash) : (hash.write value).length = 40 := by
  change (bytes.write (Bytes.bigEndian 32 _)).length = 40
  rw [length_bytes_write, Bytes.length_bigEndian]

theorem length_header_write (value : Header) :
    (header.write value).length =
      160 + value.extraData.length + value.publicKey.length + value.signature.length := by
  change (Bytes.littleEndian 8 _ ++ (hash.write _ ++ (Bytes.littleEndian 8 _ ++
    (bytes.write (Bytes.bigEndian 32 _) ++ (hash.write _ ++
      (bytes.write _ ++ (bytes.write _ ++ bytes.write _))))))).length = _
  simp only [List.length_append, Bytes.length_littleEndian, Bytes.length_bigEndian,
    length_bytes_write, length_hash_write]
  omega

theorem bytes_write_ne_nil (value : Bytes) : bytes.write value ≠ [] :=
  List.ne_nil_of_length_pos (by rw [length_bytes_write]; omega)

theorem hash_write_ne_nil (value : Hash) : hash.write value ≠ [] :=
  bytes_write_ne_nil _

theorem header_write_ne_nil (value : Header) : header.write value ≠ [] :=
  List.ne_nil_of_length_pos (by rw [length_header_write]; omega)

theorem faithful_body : body.Faithful :=
  (faithful_bytes.list bytes_write_ne_nil).convert fun _ => rfl

end Layout

/-- A message that exchanges blocks is read back from its body, whatever follows it. -/
theorem Message.ofBody_body {m : Message} (version : m.kind.route.version = 1)
    (bound : m.body.length < 2 ^ 64) (rest : Bytes) : ofBody m.kind (m.body ++ rest) = .ok m := by
  cases m with
  | reqHandshake | resHandshake | reqActiveNodes | resActiveNodes | disconnect => cases version
  | reqStatus => rfl
  | resStatus status => exact Layout.faithful_peerStatus.map_decode bound resStatus rest
  | reqBlocksHeaders start take =>
    exact (Layout.faithful_u64.pair Layout.faithful_u32).map_decode bound
      (fun request => reqBlocksHeaders request.1 request.2) rest
  | resBlocksHeaders headers =>
    exact (Layout.faithful_header.list Layout.header_write_ne_nil).map_decode bound
      resBlocksHeaders rest
  | reqBlocksBodies hashes =>
    exact (Layout.faithful_hash.list Layout.hash_write_ne_nil).map_decode bound reqBlocksBodies rest
  | resBlocksBodies bodies =>
    exact (Layout.faithful_bytes.list Layout.bytes_write_ne_nil).map_decode bound
      resBlocksBodies rest

end BlockSync
