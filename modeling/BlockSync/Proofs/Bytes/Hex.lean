import BlockSync.Bytes.Hex
import BlockSync.Proofs.Wire.Exactness

/-! Hexadecimal text. A text reads as some bytes exactly if it is what they are written as, but
for the case of its letters; so the texts that read at all are those of twice as many digits as
there are bytes to fill. Otherwise the first fault of the encoded text is told: the parity of
its length, then the length, then the first byte that is no digit. A text with characters beyond
ASCII is longer in bytes than it looks and never reads. -/
namespace BlockSync

theorem Bytes.toList_toUTF8 (text : String) :
    text.toUTF8.toList = text.toList.flatMap String.utf8EncodeChar := by
  change text.toByteArray.toList = _
  rw [Bytes.toList_byteArray, ← String.utf8Encode_toList, List.utf8Encode,
    List.toList_data_toByteArray]

/-- The character that a byte of ASCII text stands for. -/
def Bytes.char (b : UInt8) : Char :=
  Char.ofNat b.toNat

theorem Bytes.toNat_char (b : UInt8) : (char b).toNat = b.toNat := by
  have bound := b.toNat_lt
  rw [char, Char.ofNat, dif_pos (.inl (by omega))]
  rfl

theorem Bytes.encode_char {b : UInt8} (ascii : b.toNat < 128) :
    String.utf8EncodeChar (char b) = [b] := by
  have narrow : (char b).val.toNat ≤ 127 := by
    have same : (char b).val.toNat = b.toNat := toNat_char b
    omega
  rw [String.utf8EncodeChar_eq_singleton
    (Char.utf8Size_eq_one_iff.2 (UInt32.le_iff_toNat_le.2 narrow)), List.singleton_inj]
  apply UInt8.toNat_inj.1
  have same : (char b).val.toNat = b.toNat := toNat_char b
  rw [UInt32.toNat_toUInt8, same]
  exact Nat.mod_eq_of_lt b.toNat_lt

/-- Bytes of ASCII are the encoding of one text only. -/
theorem Bytes.toList_toUTF8_eq_iff {bytes : Bytes} (ascii : ∀ b ∈ bytes, b.toNat < 128)
    (text : String) : text.toUTF8.toList = bytes ↔ text.toList = bytes.map char := by
  have encoded : (bytes.map char).flatMap String.utf8EncodeChar = bytes := by
    rw [List.flatMap_map]
    induction bytes with
    | nil => rfl
    | cons b rest ih =>
      rw [List.flatMap_cons, encode_char (ascii b List.mem_cons_self),
        ih fun c inside => ascii c (List.mem_cons_of_mem _ inside), List.singleton_append]
  constructor
  · intro same
    have twin : text = String.ofList (bytes.map char) := by
      apply String.toByteArray_inj.1
      apply ByteArray.ext
      apply Array.toList_inj.1
      rw [← Bytes.toList_byteArray, ← Bytes.toList_byteArray]
      have right := toList_toUTF8 (String.ofList (bytes.map char))
      rw [String.toList_ofList, encoded] at right
      exact same.trans right.symm
    rw [twin, String.toList_ofList]
  · intro same
    rw [toList_toUTF8, same, encoded]

theorem Bytes.map_char_toUTF8 {text : String}
    (ascii : (∀ b ∈ text.toUTF8.toList, b.toNat < 128) ∨ ∀ c ∈ text.toList, c.toNat < 128) :
    text.toUTF8.toList.map char = text.toList := by
  rcases ascii with ascii | ascii
  · exact ((toList_toUTF8_eq_iff ascii text).1 rfl).symm
  · have back : (text.toList.map fun c => UInt8.ofNat c.toNat).map char = text.toList := by
      rw [List.map_map]
      refine (List.map_congr_left fun c inside => ?_).trans (List.map_id _)
      have bound := ascii c inside
      rw [Function.comp, char, UInt8.toNat_ofNat_of_lt' (by rw [UInt8.size]; omega),
        Char.ofNat_toNat, id]
    have narrow : ∀ b ∈ text.toList.map fun c => UInt8.ofNat c.toNat, b.toNat < 128 := by
      intro b member
      obtain ⟨c, inside, rfl⟩ := List.mem_map.1 member
      have bound := ascii c inside
      rwa [UInt8.toNat_ofNat_of_lt' (by rw [UInt8.size]; omega)]
    rw [(toList_toUTF8_eq_iff narrow text).2 back.symm, back]

namespace Hex

/-- A hexadecimal digit of either case. -/
def IsDigit (c : Char) : Prop :=
  '0' ≤ c ∧ c ≤ '9' ∨ 'a' ≤ c ∧ c ≤ 'f' ∨ 'A' ≤ c ∧ c ≤ 'F'

instance (c : Char) : Decidable (IsDigit c) :=
  inferInstanceAs (Decidable (_ ∨ _))

variable {b : UInt8} {n : Nat} {bytes digits : Bytes} {c : Char} {position width : Nat}
  {text : String} {error : HexError}

/-- A byte has a value exactly if it is the digit of that value in one of the cases. -/
theorem digitValue_eq_some_iff :
    digitValue b = some n ↔ n < 16 ∧ (Bytes.char b).toLower = digit n := by
  have table : ∀ k < 256, ∀ value < 16,
      (digitValue (UInt8.ofNat k) = some value ↔
        (Bytes.char (UInt8.ofNat k)).toLower = digit value) := by
    decide +kernel
  have small : ∀ k < 256, ∀ value ∈ digitValue (UInt8.ofNat k), value < 16 := by
    decide +kernel
  have same : UInt8.ofNat b.toNat = b := UInt8.ofNat_toNat
  rw [← same]
  constructor
  · intro found
    have bound := small _ b.toNat_lt n found
    exact ⟨bound, (table _ b.toNat_lt n bound).1 found⟩
  · rintro ⟨bound, lower⟩
    exact (table _ b.toNat_lt n bound).2 lower

theorem digitValue_isSome_iff : (digitValue b).isSome ↔ IsDigit (Bytes.char b) := by
  have table : ∀ k < 256, ((digitValue (UInt8.ofNat k)).isSome ↔
      IsDigit (Bytes.char (UInt8.ofNat k))) := by
    decide +kernel
  have same : UInt8.ofNat b.toNat = b := UInt8.ofNat_toNat
  rw [← same]
  exact table _ b.toNat_lt

theorem IsDigit.ascii (h : IsDigit c) : c.toNat < 128 := by
  have bounds : c.toNat ≤ 'f'.toNat := by
    rcases h with ⟨-, above⟩ | ⟨-, above⟩ | ⟨-, above⟩
    · exact Nat.le_trans (UInt32.le_iff_toNat_le.1 above) (by decide)
    · exact UInt32.le_iff_toNat_le.1 above
    · exact Nat.le_trans (UInt32.le_iff_toNat_le.1 above) (by decide)
  exact Nat.lt_of_le_of_lt bounds (by decide)

theorem isDigit_of_toLower (bound : n < 16) (lower : c.toLower = digit n) : IsDigit c := by
  have table : ∀ value < 16, IsDigit (digit value) ∧ ∀ k < 128,
      (Char.ofNat k).toLower = digit value → IsDigit (Char.ofNat k) := by
    decide +kernel
  by_cases ascii : c.toNat < 128
  · rw [← Char.ofNat_toNat c] at lower ⊢
    exact (table n bound).2 _ ascii lower
  · -- only ASCII letters have a lower case
    have same : c.toLower = c := by
      refine dif_neg fun upper => ascii ?_
      exact Nat.lt_of_le_of_lt (UInt32.le_iff_toNat_le.1 upper.2) (by decide)
    rw [← same, lower]
    exact (table n bound).1

theorem length_encodeList (bytes : Bytes) : (encodeList bytes).length = 2 * bytes.length := by
  induction bytes with
  | nil => rfl
  | cons b rest ih => simp only [encodeList, List.length_cons, ih]; omega

theorem mem_encodeList (member : c ∈ encodeList bytes) : ∃ n < 16, c = digit n := by
  induction bytes with
  | nil => cases member
  | cons b rest ih =>
    have bound := b.toNat_lt
    rcases List.mem_cons.1 member with rfl | member
    · exact ⟨_, by omega, rfl⟩
    · rcases List.mem_cons.1 member with rfl | member
      · exact ⟨_, by omega, rfl⟩
      · exact ih member

theorem value_eq_ok_iff : value b position = .ok n ↔ digitValue b = some n := by
  unfold value
  cases digitValue b with
  | none => simp
  | some n => simp

theorem value_eq_error_iff : value b position = .error error ↔
    digitValue b = none ∧ error = .invalidCharacter (Bytes.char b) position := by
  unfold value
  cases digitValue b with
  | none => simp [Bytes.char, eq_comm]
  | some n => simp

/-- Pairs of digits read as some bytes exactly if those are written with them in lower case. -/
theorem decodePairs_eq_ok_iff (even : digits.length % 2 = 0) :
    decodePairs digits position = .ok bytes ↔
      digits.map (fun b => (Bytes.char b).toLower) = encodeList bytes := by
  induction digits, position using decodePairs.induct generalizing bytes with
  | case1 high low rest position ih =>
    have shorter : rest.length % 2 = 0 := by
      simp only [List.length_cons] at even
      omega
    rw [decodePairs, List.map_cons, List.map_cons]
    constructor
    · intro read
      obtain ⟨h, first, read⟩ := Except.bind_eq_ok read
      obtain ⟨l, second, read⟩ := Except.bind_eq_ok read
      obtain ⟨tail, others, made⟩ := Except.bind_eq_ok read
      cases made
      obtain ⟨small, upper⟩ := digitValue_eq_some_iff.1 (value_eq_ok_iff.1 first)
      obtain ⟨little, lower⟩ := digitValue_eq_some_iff.1 (value_eq_ok_iff.1 second)
      have sum : (UInt8.ofNat (16 * h + l)).toNat = 16 * h + l := by
        rw [UInt8.toNat_ofNat']
        omega
      rw [encodeList, upper, lower, (ih shorter).1 others, sum,
        show (16 * h + l) / 16 = h by omega, show (16 * h + l) % 16 = l by omega]
    · intro written
      cases bytes with
      | nil => cases written
      | cons b tail =>
        rw [encodeList, List.cons.injEq, List.cons.injEq] at written
        obtain ⟨upper, lower, others⟩ := written
        have bound := b.toNat_lt
        have first := digitValue_eq_some_iff.2 ⟨(by omega : b.toNat / 16 < 16), upper⟩
        have second := digitValue_eq_some_iff.2 ⟨(by omega : b.toNat % 16 < 16), lower⟩
        have sum : UInt8.ofNat (16 * (b.toNat / 16) + b.toNat % 16) = b := by
          rw [show 16 * (b.toNat / 16) + b.toNat % 16 = b.toNat by omega, UInt8.ofNat_toNat]
        rw [value_eq_ok_iff.2 first, value_eq_ok_iff.2 second, (ih shorter).2 others]
        exact congrArg (fun b => Except.ok (b :: tail)) sum
  | case2 digits position short =>
    match digits, short with
    | [], _ =>
      cases bytes with
      | nil => simp [decodePairs, encodeList]
      | cons b tail => simp [decodePairs, encodeList]
    | [_], _ => cases even
    | high :: low :: rest, short => exact absurd rfl (short high low rest)

/-- The first fault of an encoded text, where so many bytes are to be filled. -/
inductive Fault (width : Nat) (digits : Bytes) : HexError → Prop
  | parity (odd : digits.length % 2 = 1) : Fault width digits .oddLength
  | size (even : digits.length % 2 = 0) (other : digits.length ≠ 2 * width) :
      Fault width digits .wrongLength
  | character {front back : Bytes} {b : UInt8} (size : digits.length = 2 * width)
      (split : digits = front ++ b :: back) (sound : ∀ d ∈ front, IsDigit (Bytes.char d))
      (wrong : ¬ IsDigit (Bytes.char b)) :
      Fault width digits (.invalidCharacter (Bytes.char b) front.length)

theorem value_of_digit (digit : IsDigit (Bytes.char b)) (position : Nat) :
    ∃ n, value b position = .ok n := by
  obtain ⟨n, found⟩ := Option.isSome_iff_exists.1 (digitValue_isSome_iff.2 digit)
  exact ⟨n, value_eq_ok_iff.2 found⟩

theorem value_of_not_digit (wrong : ¬ IsDigit (Bytes.char b)) (position : Nat) :
    value b position = .error (.invalidCharacter (Bytes.char b) position) := by
  rw [← digitValue_isSome_iff, Option.not_isSome_iff_eq_none] at wrong
  exact value_eq_error_iff.2 ⟨wrong, rfl⟩

/-- The first byte that is no digit stops the reading of pairs. -/
theorem decodePairs_of_wrong {front back : Bytes} (even : (front ++ b :: back).length % 2 = 0)
    (sound : ∀ d ∈ front, IsDigit (Bytes.char d)) (wrong : ¬ IsDigit (Bytes.char b))
    (position : Nat) : decodePairs (front ++ b :: back) position =
      .error (.invalidCharacter (Bytes.char b) (position + front.length)) := by
  generalize split : front ++ b :: back = digits at even
  induction digits, position using decodePairs.induct generalizing front with
  | case1 high low rest position ih =>
    rw [decodePairs]
    match front with
    | [] =>
      cases split
      rw [value_of_not_digit wrong]
      rfl
    | [first] =>
      cases split
      obtain ⟨h, upper⟩ := value_of_digit (sound high (by simp)) position
      rw [upper, value_of_not_digit wrong]
      rfl
    | first :: second :: others =>
      cases split
      obtain ⟨h, upper⟩ := value_of_digit (sound high (by simp)) position
      obtain ⟨l, lower⟩ := value_of_digit (sound low (by simp)) (position + 1)
      have sound' : ∀ d ∈ others, IsDigit (Bytes.char d) :=
        fun d inside => sound d (by simp [inside])
      have later := ih sound' rfl (by
        simp only [List.length_cons] at even
        omega)
      rw [upper, lower, later, List.length_cons, List.length_cons,
        show position + 2 + others.length = position + (others.length + 1 + 1) by omega]
      rfl
  | case2 digits position short =>
    match digits, short with
    | [], _ => simp at split
    | [_], _ => cases even
    | high :: low :: rest, short => exact absurd rfl (short high low rest)

/-- Where not all bytes are digits, some byte is the first that is none. -/
theorem exists_first_wrong (some_wrong : ¬ ∀ d ∈ digits, IsDigit (Bytes.char d)) :
    ∃ front b back, digits = front ++ b :: back ∧ (∀ d ∈ front, IsDigit (Bytes.char d)) ∧
      ¬ IsDigit (Bytes.char b) := by
  induction digits with
  | nil => simp at some_wrong
  | cons first rest ih =>
    by_cases digit : IsDigit (Bytes.char first)
    · obtain ⟨front, b, back, rfl, sound, wrong⟩ :=
        ih fun all => some_wrong (by simpa [digit] using all)
      exact ⟨first :: front, b, back, rfl, by simpa [digit] using sound, wrong⟩
    · exact ⟨[], first, rest, rfl, by simp, digit⟩

theorem exists_decodePairs (even : digits.length % 2 = 0)
    (sound : ∀ d ∈ digits, IsDigit (Bytes.char d)) (position : Nat) :
    ∃ bytes, decodePairs digits position = .ok bytes := by
  induction digits, position using decodePairs.induct with
  | case1 high low rest position ih =>
    obtain ⟨h, upper⟩ := value_of_digit (sound high (by simp)) position
    obtain ⟨l, lower⟩ := value_of_digit (sound low (by simp)) (position + 1)
    have shorter : rest.length % 2 = 0 := by
      simp only [List.length_cons] at even
      omega
    obtain ⟨tail, others⟩ := ih shorter fun d inside => sound d (by simp [inside])
    rw [decodePairs, upper, lower, others]
    exact ⟨_, rfl⟩
  | case2 digits position short =>
    match digits, short with
    | [], _ => exact ⟨[], rfl⟩
    | [_], _ => cases even
    | high :: low :: rest, short => exact absurd rfl (short high low rest)

/-- A text reads as some bytes exactly if it is what they are written as, but for the case. -/
theorem decode_eq_ok_iff : decode width text = .ok bytes ↔
    bytes.length = width ∧ text.toList.map Char.toLower = encodeList bytes := by
  have lowered (whole : text.toUTF8.toList.map Bytes.char = text.toList) :
      text.toUTF8.toList.map (fun b => (Bytes.char b).toLower) = text.toList.map Char.toLower := by
    rw [← whole, List.map_map]
    rfl
  have digits_of (written : text.toList.map Char.toLower = encodeList bytes) :
      ∀ c ∈ text.toList, IsDigit c := by
    intro c inside
    obtain ⟨n, bound, lower⟩ := mem_encodeList (written ▸ List.mem_map_of_mem inside)
    exact isDigit_of_toLower bound lower
  unfold decode
  dsimp only
  constructor
  · intro read
    split at read
    · cases read
    · split at read
      · cases read
      · rename_i even size
        have written := (decodePairs_eq_ok_iff (by omega)).1 read
        have ascii : ∀ b ∈ text.toUTF8.toList, b.toNat < 128 := by
          intro b inside
          obtain ⟨n, bound, lower⟩ := mem_encodeList (written ▸ List.mem_map_of_mem inside)
          rw [← Bytes.toNat_char]
          exact (isDigit_of_toLower bound lower).ascii
        have length := congrArg List.length written
        rw [List.length_map, length_encodeList] at length
        refine ⟨by omega, ?_⟩
        rw [← lowered (Bytes.map_char_toUTF8 (.inl ascii)), written]
  · rintro ⟨size, written⟩
    have whole := Bytes.map_char_toUTF8 (.inr fun c inside => (digits_of written c inside).ascii)
    have length := congrArg List.length (lowered whole)
    rw [List.length_map, written, length_encodeList] at length
    rw [if_neg (by omega), if_neg (by omega)]
    exact (decodePairs_eq_ok_iff (by omega)).2 ((lowered whole).trans written)

/-- The texts that read are those of two digits for each byte. -/
theorem exists_decode_iff : (∃ bytes, decode width text = .ok bytes) ↔
    text.length = 2 * width ∧ ∀ c ∈ text.toList, IsDigit c := by
  constructor
  · rintro ⟨bytes, read⟩
    obtain ⟨size, written⟩ := decode_eq_ok_iff.1 read
    refine ⟨?_, fun c inside => ?_⟩
    · have length := congrArg List.length written
      rwa [List.length_map, String.length_toList, length_encodeList, size] at length
    · obtain ⟨n, bound, lower⟩ := mem_encodeList (written ▸ List.mem_map_of_mem inside)
      exact isDigit_of_toLower bound lower
  · rintro ⟨size, sound⟩
    have whole := Bytes.map_char_toUTF8 (.inr fun c inside => (sound c inside).ascii)
    have length := congrArg List.length whole
    rw [List.length_map, String.length_toList] at length
    rw [decode, if_neg (by omega), if_neg (by omega)]
    refine exists_decodePairs (by omega) (fun d inside => sound _ ?_) 0
    rw [← whole]
    exact List.mem_map_of_mem inside

/-- A text that does not read is refused for its first fault. -/
theorem decode_eq_error_iff : decode width text = .error error ↔
    Fault width text.toUTF8.toList error := by
  unfold decode
  dsimp only
  generalize text.toUTF8.toList = digits
  constructor
  · intro refused
    split at refused
    · rename_i odd
      cases refused
      exact .parity odd
    · split at refused
      · cases refused
        exact .size (by omega) (by omega)
      · have even : digits.length % 2 = 0 := by omega
        by_cases sound : ∀ d ∈ digits, IsDigit (Bytes.char d)
        · obtain ⟨bytes, read⟩ := exists_decodePairs even sound 0
          rw [read] at refused
          cases refused
        · obtain ⟨front, b, back, rfl, before, wrong⟩ := exists_first_wrong sound
          rw [decodePairs_of_wrong even before wrong, Nat.zero_add] at refused
          cases refused
          exact .character (by omega) rfl before wrong
  · intro fault
    cases fault with
    | parity odd => rw [if_pos odd]
    | size even other => rw [if_neg (by omega), if_pos (by omega)]
    | @character front back b size split sound wrong =>
      rw [if_neg (by omega), if_neg (by omega), split,
        decodePairs_of_wrong (by rw [← split]; omega) sound wrong, Nat.zero_add]

end Hex

end BlockSync
