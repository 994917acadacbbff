import BlockSync.Proofs.Wire.Compression
import BlockSync.Proofs.Wire.Layouts
import BlockSync.Wire.Frame

/-! What is written as a frame is read back, route and body, with the rest of the stream
behind it; and a short body always fits in a frame. -/
namespace BlockSync.Frame

theorem write_eq_ok {e : Envelope} {stream : Bytes} (h : write e = .ok stream) :
    e.body.length ≤ maxBody ∧ (Snappy.compress e.body).length ≤ maxBody ∧
      stream = header e.route (Snappy.compress e.body).length ++ Snappy.compress e.body := by
  unfold write at h
  split at h
  · cases h
  · rename_i body
    dsimp only at h
    split at h
    · cases h
    · rename_i block
      cases h
      exact ⟨Nat.not_lt.1 body, Nat.not_lt.1 block, rfl⟩

theorem length_header (route : Route) (length : Nat) : (header route length).length = 8 := by
  simp [header]

theorem readHeader_header (route : Route) {length : Nat} (bound : length < 2 ^ 32) :
    readHeader (header route length) = (route, length) := by
  have version : Bytes.ofBigEndian (Bytes.bigEndian 2 route.version.toNat) =
      route.version.toNat := by
    rw [Bytes.ofBigEndian_bigEndian]
    exact Nat.mod_eq_of_lt route.version.toNat_lt
  have size : Bytes.ofBigEndian (Bytes.bigEndian 4 length) = length := by
    rw [Bytes.ofBigEndian_bigEndian]
    exact Nat.mod_eq_of_lt bound
  have front : (header route length).take 2 = Bytes.bigEndian 2 route.version.toNat :=
    List.take_left' (Bytes.length_bigEndian 2 _)
  have back : ((header route length).drop 4).take 4 = Bytes.bigEndian 4 length := by
    have before :
        (Bytes.bigEndian 2 route.version.toNat ++ [route.control, route.action]).length = 4 := by
      simp
    have shown : (header route length).drop 4 = Bytes.bigEndian 4 length :=
      List.drop_left' before
    rw [shown, List.take_of_length_le (Nat.le_of_eq (Bytes.length_bigEndian 4 _))]
  unfold readHeader
  rw [front, back, version, size]
  simp [header]

/-- A frame reads back, whatever follows it. -/
theorem read_write {e : Envelope} {stream : Bytes} (h : write e = .ok stream) (rest : Bytes) :
    read (stream ++ rest) = .ok (e, rest) := by
  obtain ⟨body, block, rfl⟩ := write_eq_ok h
  have small : maxBody < 2 ^ 32 := by decide
  have text := Snappy.decompress_compress (Nat.lt_of_le_of_lt body small)
  have head := Bytes.takeExactly_append (header e.route (Snappy.compress e.body).length)
    (Snappy.compress e.body ++ rest)
  rw [length_header] at head
  unfold read
  rw [List.append_assoc, head]
  dsimp only
  rw [readHeader_header _ (Nat.lt_of_le_of_lt block small)]
  dsimp only
  rw [if_neg (Nat.not_lt.2 block), Bytes.takeExactly_append]
  dsimp only
  unfold readBody
  rw [Snappy.declaredLength_of_decompress text]
  dsimp only
  rw [if_neg (Nat.not_lt.2 body), text]

theorem readAll_of_ok {e : Envelope} {stream rest : Bytes} (h : read stream = .ok (e, rest)) :
    readAll stream = (e :: (readAll rest).1, (readAll rest).2) := by
  rw [readAll.eq_def]
  split
  · rename_i failed
    rw [h] at failed
    cases failed
  · rename_i read
    rw [h] at read
    cases read
    rfl

theorem readAll_of_error {stream : Bytes} {error : WireError} (h : read stream = .error error) :
    readAll stream = ([], error) := by
  rw [readAll.eq_def]
  split
  · rename_i failed
    rw [h] at failed
    cases failed
    rfl
  · rename_i read
    rw [h] at read
    cases read

theorem readAll_write {e : Envelope} {stream : Bytes} (h : write e = .ok stream) :
    readAll stream = ([e], .endOfStream) := by
  have whole := read_write h []
  rw [List.append_nil] at whole
  have ended : readAll [] = ([], .endOfStream) := readAll_of_error rfl
  rw [readAll_of_ok whole, ended]

/-- A body whose compressed form cannot get too long is accepted. -/
theorem write_of_short {e : Envelope} (short : 6 * e.body.length + 5 ≤ maxBody) :
    ∃ stream, write e = .ok stream := by
  have body : e.body.length ≤ maxBody := by omega
  have small : maxBody < 2 ^ 32 := by decide
  have block := Snappy.length_compress_le (Nat.lt_of_le_of_lt body small)
  unfold write
  rw [if_neg (Nat.not_lt.2 body)]
  dsimp only
  rw [if_neg (by omega)]
  exact ⟨_, rfl⟩

end BlockSync.Frame
