import BlockSync.Proofs.Wire.Layouts

/-! Layouts are exact: what is read is what would have been written, with the rest behind it.
A length, a tag or a flag that is not the one written for the value is refused. That holds of
a pair, a list or a tagged layout if it holds of the parts, and of a converted one if the
conversion can be undone for all that is read. -/
namespace BlockSync

theorem Except.bind_eq_ok {ε α β : Type} {x : Except ε α} {f : α → Except ε β} {b : β}
    (h : x >>= f = .ok b) : ∃ a, x = .ok a ∧ f a = .ok b := by
  cases x with
  | error e => cases h
  | ok a => exact ⟨a, rfl, h⟩

theorem Except.map_eq_ok {ε α β : Type} {x : Except ε α} {f : α → β} {b : β}
    (h : x.map f = .ok b) : ∃ a, x = .ok a ∧ f a = b := by
  cases x with
  | error e => cases h
  | ok a =>
    cases h
    exact ⟨a, rfl, rfl⟩

theorem Bytes.toList_byteArray (bytes : ByteArray) : bytes.toList = bytes.data.toList := by
  have go (i : Nat) (done : List UInt8) :
      ByteArray.toList.loop bytes i done = done.reverse ++ bytes.data.toList.drop i := by
    induction i, done using ByteArray.toList.loop.induct bytes with
    | case1 i done inside ih =>
      have next : bytes.get! i = bytes.data[i] := getElem!_pos bytes.data i inside
      have within : i < bytes.data.toList.length := inside
      rw [ByteArray.toList.loop, if_pos inside, ih, next, List.reverse_cons, List.append_assoc,
        List.drop_eq_getElem_cons within]
      rfl
    | case2 i done past =>
      have none_left : bytes.data.toList.length ≤ i := by simpa using past
      rw [ByteArray.toList.loop, if_neg past, List.drop_of_length_le none_left, List.append_nil]
  exact go 0 []

namespace Layout

variable {α β : Type} {l : Layout α} {m : Layout β}

/-- What is read is what would have been written, and the rest follows. -/
def Exact (l : Layout α) : Prop :=
  ∀ ⦃raw value rest⦄, l.read raw = .ok (value, rest) → raw = l.write value ++ rest

/-- A value that is read out of a body stands at its front. -/
theorem Exact.of_map_decode (h : l.Exact) {f : α → β} {raw : Bytes} {result : β}
    (decoded : (l.decode raw).map f = .ok result) :
    ∃ value, f value = result ∧ l.write value <+: raw := by
  obtain ⟨value, found, made⟩ := Except.map_eq_ok decoded
  obtain ⟨parts, read, rfl⟩ := Except.map_eq_ok found
  exact ⟨parts.1, made, parts.2, (h read).symm⟩

theorem exact_number (width : Nat) : (number width).Exact := by
  intro raw value rest read
  obtain ⟨parts, taken, made⟩ := Except.bind_eq_ok read
  cases made
  obtain ⟨size, split⟩ := Bytes.eq_append_of_takeExactly taken
  have same := Bytes.littleEndian_ofLittleEndian parts.1
  rw [size] at same
  rw [split]
  exact congrArg (· ++ parts.2) same.symm

theorem exact_raw (width : Nat) : (raw width).Exact :=
  fun _ _ _ read => (Bytes.eq_append_of_takeExactly read).2

theorem Exact.convert {forth : α → Except LayoutError β} {back : β → α} (h : l.Exact)
    (same : ∀ {raw a rest b}, l.read raw = .ok (a, rest) → forth a = .ok b → back b = a) :
    (l.convert forth back).Exact := by
  intro raw value rest read
  obtain ⟨parts, found, converted⟩ := Except.bind_eq_ok read
  obtain ⟨b, made, result⟩ := Except.bind_eq_ok converted
  cases result
  rw [h found, ← same found made]
  rfl

theorem Exact.pair (h : l.Exact) (k : m.Exact) : (l.pair m).Exact := by
  intro raw value rest read
  obtain ⟨front, first, back⟩ := Except.bind_eq_ok read
  obtain ⟨parts, second, result⟩ := Except.bind_eq_ok back
  cases result
  rw [h first, k second, ← List.append_assoc]
  rfl

theorem readMany_eq_ok (h : l.Exact) {count : Nat} {done values : List α} {raw rest : Bytes}
    (read : readMany l count done raw = .ok (values, rest)) :
    ∃ more, values = done.reverse ++ more ∧ more.length = count ∧
      raw = more.flatMap l.write ++ rest := by
  induction count generalizing done raw with
  | zero =>
    cases read
    exact ⟨[], by simp⟩
  | succ count ih =>
    rw [readMany] at read
    split at read
    · rename_i value others first
      obtain ⟨more, rfl, size, split⟩ := ih read
      refine ⟨value :: more, by simp, by simp [size], ?_⟩
      rw [h first, split, List.flatMap_cons, List.append_assoc]
    · cases read

theorem forall_of_readMany {P : α → Prop} {count : Nat} {done values : List α} {raw rest : Bytes}
    (each : ∀ {raw value rest}, l.read raw = .ok (value, rest) → P value)
    (before : ∀ value ∈ done, P value)
    (read : readMany l count done raw = .ok (values, rest)) : ∀ value ∈ values, P value := by
  induction count generalizing done raw with
  | zero =>
    cases read
    simpa using before
  | succ count ih =>
    rw [readMany] at read
    split at read
    · rename_i first
      exact ih (List.forall_mem_cons.2 ⟨each first, before⟩) read
    · cases read

theorem Exact.list (h : l.Exact) : (list l).Exact := by
  intro raw values rest read
  obtain ⟨parts, counted, filled⟩ := Except.bind_eq_ok read
  obtain ⟨more, rfl, size, split⟩ := readMany_eq_ok h filled
  rw [exact_number 8 counted, split, ← size, ← List.append_assoc]
  rfl

theorem exact_bytes : bytes.Exact := by
  intro raw value rest read
  obtain ⟨parts, counted, taken⟩ := Except.bind_eq_ok read
  obtain ⟨size, split⟩ := Bytes.eq_append_of_takeExactly taken
  rw [exact_number 8 counted, split, ← size, ← List.append_assoc]
  rfl

theorem Exact.tagged {tag : α → Nat} {write : α → Bytes}
    {choose : Nat → Bytes → Except LayoutError (α × Bytes)}
    (chosen : ∀ {t raw value rest}, choose t raw = .ok (value, rest) →
      t = tag value ∧ raw = write value ++ rest) : (tagged tag write choose).Exact := by
  intro raw value rest read
  obtain ⟨parts, told, made⟩ := Except.bind_eq_ok read
  obtain ⟨kind, split⟩ := chosen made
  rw [exact_number 4 told, split, kind, ← List.append_assoc]
  rfl

theorem Reads.tagged {tag : α → Nat} {write : α → Bytes}
    {choose : Nat → Bytes → Except LayoutError (α × Bytes)} {value : α} {t : Nat}
    (kind : tag value = t) (small : t < 256 ^ 4)
    (chosen : ∀ rest, choose t (write value ++ rest) = .ok (value, rest)) :
    (tagged tag write choose).Reads value := by
  intro rest
  change ((number 4).read (((number 4).write (tag value) ++ write value) ++ rest) >>= _) = _
  rw [List.append_assoc, kind, reads_number small]
  exact chosen rest

theorem lt_of_read_number {width n : Nat} {raw rest : Bytes}
    (read : (number width).read raw = .ok (n, rest)) : n < 256 ^ width := by
  obtain ⟨parts, taken, made⟩ := Except.bind_eq_ok read
  cases made
  rw [← (Bytes.eq_append_of_takeExactly taken).1]
  exact Bytes.ofLittleEndian_lt parts.1

/-- A number that is read fits into a type that has all numbers of that width. -/
theorem exact_unsigned {width : Nat} {ofNat : Nat → α} {toNat : α → Nat}
    (same : ∀ n < 256 ^ width, toNat (ofNat n) = n) :
    ((number width).convert (fun n => .ok (ofNat n)) toNat).Exact := by
  refine (exact_number width).convert ?_
  intro raw n rest value read made
  cases made
  exact same n (lt_of_read_number read)

theorem exact_u8 : u8.Exact :=
  exact_unsigned fun _ small => UInt8.toNat_ofNat_of_lt' small

theorem exact_u16 : u16.Exact :=
  exact_unsigned fun _ small => UInt16.toNat_ofNat_of_lt' small

theorem exact_u32 : u32.Exact :=
  exact_unsigned fun _ small => UInt32.toNat_ofNat_of_lt' small

theorem exact_u64 : u64.Exact :=
  exact_unsigned fun _ small => UInt64.toNat_ofNat_of_lt' small

theorem exact_bool : bool.Exact := by
  refine (exact_number 1).convert ?_
  intro raw n rest value _ made
  split at made
  · cases made
    exact (by assumption : n = 0).symm
  · split at made <;> cases made
    exact (by assumption : n = 1).symm

theorem exact_text : text.Exact := by
  refine exact_bytes.convert ?_
  intro raw value rest s _ made
  split at made <;> cases made
  rename_i found
  unfold String.fromUTF8? at found
  split at found <;> cases found
  exact Bytes.toList_byteArray _

theorem exact_sized (width : Nat) : (sized width).Exact := by
  refine exact_bytes.convert ?_
  intro raw value rest result _ made
  split at made <;> cases made
  rfl

theorem length_of_read_sized {width : Nat} {raw value rest : Bytes}
    (read : (sized width).read raw = .ok (value, rest)) : value.length = width := by
  obtain ⟨parts, found, converted⟩ := Except.bind_eq_ok read
  obtain ⟨b, made, result⟩ := Except.bind_eq_ok converted
  cases result
  dsimp only at made
  split at made <;> cases made
  assumption

theorem bigEndian_ofNat {width : Nat} {value : Bytes} (size : value.length = width) :
    Bytes.bigEndian width (BitVec.ofNat (8 * width) (Bytes.ofBigEndian value)).toNat = value := by
  have small := Bytes.ofBigEndian_lt value
  rw [size, show 256 = 2 ^ 8 from rfl, ← Nat.pow_mul] at small
  rw [BitVec.toNat_ofNat, Nat.mod_eq_of_lt small, ← size, Bytes.bigEndian_ofBigEndian]

theorem exact_word : word.Exact := by
  refine (exact_sized 32).convert ?_
  intro raw value rest w read made
  cases made
  exact bigEndian_ofNat (length_of_read_sized read)

theorem exact_octets (width : Nat) : (octets width).Exact := by
  refine (exact_raw width).convert ?_
  intro raw value rest w read made
  cases made
  exact bigEndian_ofNat (Bytes.eq_append_of_takeExactly read).1

theorem exact_hash : hash.Exact :=
  exact_word.convert fun _ made => by cases made; rfl

theorem exact_nodeId : nodeId.Exact := by
  refine (exact_raw 32).convert ?_
  intro raw value rest id read made
  cases made
  exact bigEndian_ofNat (Bytes.eq_append_of_takeExactly read).1

theorem exact_header : header.Exact :=
  (exact_u64.pair (exact_hash.pair (exact_u64.pair (exact_word.pair (exact_hash.pair
    (exact_bytes.pair (exact_bytes.pair exact_bytes))))))).convert fun _ made => by cases made; rfl

theorem exact_peerStatus : peerStatus.Exact :=
  (exact_u64.pair (exact_hash.pair (exact_word.pair (exact_hash.pair (exact_u8.pair
    (exact_u16.pair (exact_u32.pair exact_u32))))))).convert fun _ made => by cases made; rfl

theorem exact_ip : ip.Exact := by
  refine Exact.tagged ?_
  intro t raw value rest chosen
  split at chosen
  · obtain ⟨parts, read, made⟩ := Except.map_eq_ok chosen
    cases made
    exact ⟨by assumption, exact_octets 4 read⟩
  · split at chosen
    · obtain ⟨parts, read, made⟩ := Except.map_eq_ok chosen
      cases made
      exact ⟨by assumption, exact_octets 16 read⟩
    · cases chosen

theorem exact_socketAddress : socketAddress.Exact := by
  refine Exact.tagged ?_
  intro t raw value rest chosen
  split at chosen
  · obtain ⟨parts, read, made⟩ := Except.map_eq_ok chosen
    cases made
    exact ⟨by assumption, (exact_octets 4).pair exact_u16 read⟩
  · split at chosen
    · obtain ⟨parts, read, made⟩ := Except.map_eq_ok chosen
      cases made
      exact ⟨by assumption, (exact_octets 16).pair exact_u16 read⟩
    · cases chosen

theorem exact_handshakeRequest : handshakeRequest.Exact :=
  (exact_nodeId.pair (exact_u32.pair (exact_ip.pair (exact_u16.pair (exact_text.pair
    exact_u16.list))))).convert fun _ made => by cases made; rfl

theorem exact_handshakeReply : handshakeReply.Exact :=
  (exact_bool.pair exact_text).convert fun _ made => by cases made; rfl

theorem exact_nodeAddress : nodeAddress.Exact :=
  (exact_nodeId.pair exact_socketAddress).convert fun _ made => by cases made; rfl

end Layout

end BlockSync
