import BlockSync.Proofs.Wire.Numbers
import BlockSync.Wire.Snappy

/-! Compressed texts. Reading a block takes at most six bytes of it for each byte of text
that comes out, besides the length in front, and what is stored as literals reads back.
So whatever the match finder makes, a compressed text reads back and is not much longer. -/
namespace BlockSync.Snappy

theorem toNat_ofNat_of_lt {n : Nat} (bound : n < 256) : (UInt8.ofNat n).toNat = n := by
  rw [UInt8.toNat_ofNat']
  exact Nat.mod_eq_of_lt bound

theorem readLength_last {more n shift front : Nat} (small : n < 128) (below : front < 2 ^ shift)
    (rest : Bytes) :
    readLength (more + 1) shift front (UInt8.ofNat n :: rest) =
      some (n <<< shift + front, rest) := by
  have digit := toNat_ofNat_of_lt (Nat.lt_trans small (by decide : 128 < 256))
  have final : UInt8.ofNat n < 128 := UInt8.lt_iff_toNat_lt.2 (by rw [digit]; exact small)
  simp only [readLength, digit, Nat.mod_eq_of_lt small, if_pos final]
  rw [Nat.or_comm, Nat.shiftLeft_add_eq_or_of_lt below]

/-- A number below `128 ^ (more + 1)` is read back, on top of what was read before. -/
theorem readLength_writeLength {more n shift front : Nat} (bound : n < 128 ^ (more + 1))
    (below : front < 2 ^ shift) (rest : Bytes) :
    readLength (more + 1) shift front (writeLength more n ++ rest) =
      some (n <<< shift + front, rest) := by
  induction more generalizing n shift front with
  | zero => exact readLength_last (by simpa using bound) below rest
  | succ more ih =>
    unfold writeLength
    split
    · rename_i small
      exact readLength_last small below rest
    · have low : n % 128 < 128 := Nat.mod_lt n (by decide)
      have digit := toNat_ofNat_of_lt (n := n % 128 + 128) (by omega)
      have onward : ¬ UInt8.ofNat (n % 128 + 128) < 128 := by
        rw [UInt8.lt_iff_toNat_lt, digit]
        exact Nat.not_lt.2 (Nat.le_add_left _ _)
      -- what was read so far stays below the next digit, so that joining them is adding
      have joined : front ||| (n % 128) <<< shift = (n % 128) <<< shift + front := by
        rw [Nat.or_comm, Nat.shiftLeft_add_eq_or_of_lt below]
      have room : (n % 128) <<< shift + front < 2 ^ (shift + 7) := by
        have step := Nat.mul_le_mul_right (2 ^ shift) (Nat.succ_le_of_lt low)
        rw [Nat.succ_mul] at step
        rw [Nat.shiftLeft_eq, Nat.pow_add]
        omega
      have whole : (n / 128) <<< (shift + 7) + (n % 128) <<< shift = n <<< shift := by
        rw [Nat.shiftLeft_eq, Nat.shiftLeft_eq, Nat.shiftLeft_eq, Nat.pow_add,
          Nat.mul_comm (2 ^ shift), ← Nat.mul_assoc, ← Nat.add_mul, Nat.div_add_mod']
      rw [List.cons_append, readLength]
      simp only [digit, Nat.add_mod_right, Nat.mod_mod, joined, if_neg onward]
      rw [ih (by rw [Nat.pow_succ] at bound; omega) room, ← Nat.add_assoc, whole]

theorem header_writeLength {n : Nat} (bound : n < UInt32.size) (rest : Bytes) :
    header (writeLength 4 n ++ rest) = some (n, rest) := by
  unfold header
  rw [readLength_writeLength (Nat.lt_trans bound (by decide)) Nat.one_pos]
  simp only [Nat.shiftLeft_zero, Nat.add_zero, if_pos bound]

theorem readLiteral_far {code : Nat} {front piece : Bytes} (far : 60 ≤ code) (upto : code ≤ 63)
    (width : front.length = code - 59) (length : Bytes.ofLittleEndian front + 1 = piece.length)
    (long : 4 ≤ front.length + piece.length) (rest : Bytes) :
    Element.readLiteral code (front ++ piece ++ rest) = some (.literal piece, rest) := by
  have four : 4 ≤ (front ++ piece ++ rest).length := by
    rw [List.length_append, List.length_append]
    omega
  have shown : ((front ++ piece ++ rest).take 4).take (code - 59) = front := by
    rw [List.take_take, Nat.min_eq_left (by omega), List.append_assoc, ← width]
    exact List.take_left
  have behind : (front ++ piece ++ rest).drop (code - 59) = piece ++ rest := by
    rw [List.append_assoc, ← width]
    exact List.drop_left
  unfold Element.readLiteral
  rw [if_neg (by omega)]
  simp only [shown, behind, length, Bytes.takeExactly_append, List.length_take]
  rw [if_neg (by omega)]

theorem read_writeLiteral {piece : Bytes} (nonempty : 1 ≤ piece.length)
    (bound : piece.length ≤ blockSize) (rest : Bytes) :
    ∃ tag tail, Element.writeLiteral piece ++ rest = tag :: tail ∧
      Element.read tag tail = some (.literal piece, rest) := by
  unfold blockSize at bound
  have whole : piece.length - 1 + 1 = piece.length := Nat.sub_add_cancel nonempty
  unfold Element.writeLiteral
  dsimp only
  split
  · rename_i short
    refine ⟨_, piece ++ rest, rfl, ?_⟩
    have tag := toNat_ofNat_of_lt (n := 4 * (piece.length - 1)) (by omega)
    simp only [Element.read, tag, Nat.mul_mod_right, Element.readLiteral]
    rw [Nat.mul_div_cancel_left _ (by decide), if_pos short, whole, Bytes.takeExactly_append]
  · split
    · rename_i long short
      have length : Bytes.ofLittleEndian [UInt8.ofNat (piece.length - 1)] + 1 = piece.length := by
        simp only [Bytes.ofLittleEndian, toNat_ofNat_of_lt short]
        omega
      refine ⟨60 * 4, [UInt8.ofNat (piece.length - 1)] ++ piece ++ rest, rfl, ?_⟩
      exact readLiteral_far (by decide) (by decide) rfl length
        (by rw [List.length_singleton]; omega) rest
    · rename_i long
      have length : Bytes.ofLittleEndian (Bytes.littleEndian 2 (piece.length - 1)) + 1 =
          piece.length := by
        rw [Bytes.ofLittleEndian_littleEndian, Nat.mod_eq_of_lt (by omega), whole]
      refine ⟨61 * 4, Bytes.littleEndian 2 (piece.length - 1) ++ piece ++ rest, rfl, ?_⟩
      exact readLiteral_far (by decide) (by decide) (Bytes.length_littleEndian _ _) length
        (by rw [Bytes.length_littleEndian]; omega) rest

theorem toList_foldl_push (bytes : Bytes) (out : Array UInt8) :
    (bytes.foldl Array.push out).toList = out.toList ++ bytes := by
  induction bytes generalizing out with
  | nil => simp
  | cons first rest ih =>
    rw [List.foldl_cons, ih, Array.toList_push, List.append_assoc, List.singleton_append]

/-- Literals add up to the text they are pieces of. -/
theorem expand_literals {limit fuel : Nat} {parts : List Bytes} {out : Array UInt8}
    (sizes : ∀ piece ∈ parts, 1 ≤ piece.length ∧ piece.length ≤ blockSize)
    (room : out.size + parts.flatten.length ≤ limit)
    (enough : (parts.flatMap Element.writeLiteral).length ≤ fuel) :
    ∃ whole, expand limit fuel (parts.flatMap Element.writeLiteral) out = some whole ∧
      whole.toList = out.toList ++ parts.flatten := by
  induction parts generalizing fuel out with
  | nil => exact ⟨out, by rw [List.flatMap_nil, expand.eq_def], by simp⟩
  | cons first rest ih =>
    obtain ⟨nonempty, short⟩ := sizes first List.mem_cons_self
    obtain ⟨tag, tail, split, read⟩ :=
      read_writeLiteral nonempty short (rest.flatMap Element.writeLiteral)
    rw [List.flatten_cons, List.length_append] at room
    have held := toList_foldl_push first out
    have size : (first.foldl Array.push out).size = out.size + first.length := by
      rw [← Array.length_toList, held, List.length_append, Array.length_toList]
    have fits : (Element.literal first).apply limit out = some (first.foldl Array.push out) := by
      unfold Element.apply
      dsimp only
      rw [if_pos (by omega)]
    have consumed : (rest.flatMap Element.writeLiteral).length + 1 ≤ fuel := by
      have positive : 1 ≤ (Element.writeLiteral first).length := by
        unfold Element.writeLiteral
        dsimp only
        split
        · exact Nat.le_add_left _ _
        · split <;> exact Nat.le_add_left _ _
      rw [List.flatMap_cons, List.length_append] at enough
      omega
    obtain ⟨less, rfl⟩ := Nat.exists_eq_add_one_of_ne_zero (n := fuel) (by omega)
    have later : (first.foldl Array.push out).size + rest.flatten.length ≤ limit := by omega
    have left : (rest.flatMap Element.writeLiteral).length ≤ less := by omega
    obtain ⟨all, expanded, total⟩ :=
      ih (fun piece member => sizes piece (List.mem_cons_of_mem _ member)) later left
    refine ⟨all, ?_, by rw [total, held, List.flatten_cons, List.append_assoc]⟩
    rw [List.flatMap_cons, split, expand]
    simp only [read, fits, expanded]

theorem pieces_spec {fuel : Nat} {text : Bytes} (enough : text.length ≤ fuel * blockSize) :
    (pieces fuel text).flatten = text ∧
      ∀ piece ∈ pieces fuel text, 1 ≤ piece.length ∧ piece.length ≤ blockSize := by
  induction fuel generalizing text with
  | zero =>
    rw [Nat.zero_mul] at enough
    obtain rfl := List.length_eq_zero_iff.1 (Nat.le_zero.1 enough)
    simp [pieces]
  | succ fuel ih =>
    cases text with
    | nil => simp [pieces]
    | cons first rest =>
      have less : ((first :: rest).drop blockSize).length ≤ fuel * blockSize := by
        rw [List.length_drop]
        rw [Nat.succ_mul] at enough
        omega
      obtain ⟨whole, sizes⟩ := ih less
      simp only [pieces]
      refine ⟨by rw [List.flatten_cons, whole, List.take_append_drop], ?_⟩
      rintro piece (_ | ⟨_, member⟩)
      · rw [List.length_take]
        unfold blockSize
        rw [List.length_cons]
        omega
      · exact sizes piece member

theorem decompress_stored {text : Bytes} (bound : text.length < UInt32.size) :
    decompress (stored text) = some text := by
  have enough : text.length ≤ (text.length / blockSize + 1) * blockSize :=
    Nat.le_of_lt (Nat.lt_mul_of_div_lt (Nat.lt_succ_self (text.length / blockSize)) (by decide))
  obtain ⟨whole, sizes⟩ := pieces_spec enough
  have literals : ((piecesOf text).map Element.literal).flatMap Element.write =
      (piecesOf text).flatMap Element.writeLiteral := by
    rw [List.flatMap_map]
    rfl
  have room : (#[] : Array UInt8).size + (piecesOf text).flatten.length ≤ text.length := by
    rw [piecesOf, whole]
    simp
  obtain ⟨all, expanded, same⟩ := expand_literals sizes room (Nat.le_refl _)
  rw [whole, List.nil_append] at same
  unfold decompress stored assemble
  rw [literals, header_writeLength bound]
  dsimp only
  unfold piecesOf
  rw [expanded]
  dsimp only
  rw [← Array.length_toList, same, if_pos rfl]

/-- A compressed text reads back, whatever the match finder made of it. -/
theorem decompress_compress {text : Bytes} (bound : text.length < UInt32.size) :
    decompress (compress text) = some text := by
  unfold compress
  dsimp only
  split
  · assumption
  · exact decompress_stored bound

/-- The number of bytes of text that an element stands for. -/
def Element.size : Element → Nat
  | .literal bytes => bytes.length
  | .copy _ length => length

theorem length_of_takeExactly {n : Nat} {bytes front rest : Bytes}
    (h : bytes.takeExactly n = .ok (front, rest)) :
    front.length = n ∧ bytes.length = n + rest.length := by
  obtain ⟨size, rfl⟩ := Bytes.eq_append_of_takeExactly h
  exact ⟨size, by rw [List.length_append, size]⟩

theorem readLiteral_size {code : Nat} {input rest : Bytes} {element : Element} (upto : code ≤ 63)
    (h : Element.readLiteral code input = some (element, rest)) :
    1 ≤ element.size ∧ input.length ≤ rest.length + element.size + 4 := by
  unfold Element.readLiteral at h
  split at h
  · split at h
    · rename_i taken
      cases h
      obtain ⟨front, whole⟩ := length_of_takeExactly taken
      simp only [Element.size]
      omega
    · cases h
  · dsimp only at h
    split at h
    · cases h
    · split at h
      · rename_i taken
        cases h
        obtain ⟨front, whole⟩ := length_of_takeExactly taken
        rw [List.length_drop] at whole
        simp only [Element.size]
        omega
      · cases h

theorem readCopy_size {width length high : Nat} {input rest : Bytes} {element : Element}
    (h : Element.readCopy width length high input = some (element, rest)) :
    element.size = length ∧ input.length = rest.length + width := by
  unfold Element.readCopy at h
  split at h
  · rename_i taken
    cases h
    obtain ⟨front, whole⟩ := length_of_takeExactly taken
    exact ⟨rfl, by omega⟩
  · cases h

/-- An element stands for at least a byte, and takes no more than five besides its own. -/
theorem read_size {tag : UInt8} {input rest : Bytes} {element : Element}
    (h : Element.read tag input = some (element, rest)) :
    1 ≤ element.size ∧ input.length ≤ rest.length + element.size + 4 := by
  have small := tag.toNat_lt
  unfold Element.read at h
  dsimp only at h
  split at h
  · exact readLiteral_size (by omega) h
  all_goals
    obtain ⟨size, whole⟩ := readCopy_size h
    omega

theorem size_copyBack (offset length : Nat) (out : Array UInt8) :
    (copyBack offset length out).size = out.size + length := by
  induction length generalizing out with
  | zero => rfl
  | succ length ih => rw [copyBack, ih, Array.size_push]; omega

theorem apply_size {limit : Nat} {out next : Array UInt8} {element : Element}
    (h : element.apply limit out = some next) : next.size = out.size + element.size := by
  unfold Element.apply at h
  split at h
  · dsimp only at h
    split at h <;> cases h
    rw [← Array.length_toList, toList_foldl_push, List.length_append, Array.length_toList]
    rfl
  · split at h <;> cases h
    exact size_copyBack _ _ _

theorem length_le_of_expand {limit fuel : Nat} {block : Bytes} {out whole : Array UInt8}
    (h : expand limit fuel block out = some whole) :
    block.length + 6 * out.size ≤ 6 * whole.size := by
  induction fuel generalizing block out with
  | zero =>
    cases block with
    | nil => cases h; simp
    | cons => cases h
  | succ fuel ih =>
    cases block with
    | nil => cases h; simp
    | cons tag input =>
      rw [expand] at h
      split at h
      · rename_i element rest read
        split at h
        · rename_i next applied
          have onward := ih h
          have grown := apply_size applied
          obtain ⟨positive, taken⟩ := read_size read
          rw [List.length_cons]
          omega
        · cases h
      · cases h

theorem length_of_readLength {more shift n front : Nat} {block rest : Bytes}
    (h : readLength more shift front block = some (n, rest)) :
    block.length ≤ rest.length + more := by
  induction more generalizing shift front block with
  | zero => cases h
  | succ more ih =>
    cases block with
    | nil => cases h
    | cons byte others =>
      rw [readLength] at h
      split at h
      · cases h
        rw [List.length_cons]
        omega
      · have shorter := ih h
        rw [List.length_cons]
        omega

theorem length_le_of_decompress {block text : Bytes} (h : decompress block = some text) :
    block.length ≤ 6 * text.length + 5 := by
  unfold decompress header at h
  split at h
  · cases h
  · rename_i length rest headed
    split at headed
    · rename_i read
      split at headed <;> cases headed
      have front := length_of_readLength read
      split at h
      · rename_i out expanded
        split at h <;> cases h
        have body := length_le_of_expand expanded
        have size : out.toList.length = out.size := Array.length_toList
        rw [List.size_toArray, List.length_nil] at body
        omega
      · cases h
    · cases headed

theorem length_compress_le {text : Bytes} (bound : text.length < UInt32.size) :
    (compress text).length ≤ 6 * text.length + 5 :=
  length_le_of_decompress (decompress_compress bound)

theorem declaredLength_of_decompress {block text : Bytes} (h : decompress block = some text) :
    declaredLength block = some text.length := by
  cases block with
  | nil => cases h
  | cons byte others =>
    unfold decompress at h
    split at h
    · cases h
    · rename_i length rest headed
      split at h
      · rename_i out expanded
        split at h <;> cases h
        rename_i size
        rw [declaredLength, List.isEmpty_cons, if_neg Bool.false_ne_true, headed, Option.map_some,
          ← size, Array.length_toList]
      · cases h

end BlockSync.Snappy
