import BlockSync.Bytes
import Mathlib.Algebra.Group.Nat.Defs

/-! Numbers in bytes. Reading a written number back gives it modulo `256 ^ width`, so
writing loses nothing below that bound; and bytes are what their number is written as. -/
namespace BlockSync.Bytes

theorem ofLittleEndian_littleEndian (width n : Nat) :
    ofLittleEndian (littleEndian width n) = n % 256 ^ width := by
  induction width generalizing n with
  | zero => simp [littleEndian, ofLittleEndian, Nat.mod_one]
  | succ width ih =>
    rw [littleEndian, ofLittleEndian, ih, UInt8.toNat_ofNat', Nat.pow_succ 256 width,
      Nat.mul_comm (256 ^ width) 256, Nat.mod_mul]

theorem littleEndian_ofLittleEndian (bytes : Bytes) :
    littleEndian bytes.length (ofLittleEndian bytes) = bytes := by
  induction bytes with
  | nil => rfl
  | cons b rest ih =>
    have hb : b.toNat < 256 := b.toNat_lt
    simp only [List.length_cons, littleEndian, ofLittleEndian]
    congr 1
    · apply UInt8.toNat_inj.1
      rw [UInt8.toNat_ofNat']
      omega
    · rw [show (b.toNat + 256 * ofLittleEndian rest) / 256 = ofLittleEndian rest by omega, ih]

theorem ofLittleEndian_lt (bytes : Bytes) : ofLittleEndian bytes < 256 ^ bytes.length := by
  have same := ofLittleEndian_littleEndian bytes.length (ofLittleEndian bytes)
  rw [littleEndian_ofLittleEndian] at same
  rw [same]
  exact Nat.mod_lt _ (Nat.pow_pos (by decide))

private theorem foldl_eq_ofLittleEndian_reverse (bytes : Bytes) :
    bytes.foldl (fun n b => 256 * n + b.toNat) 0 = ofLittleEndian bytes.reverse := by
  have h : ∀ l : Bytes, l.foldr (fun b n => 256 * n + b.toNat) 0 = ofLittleEndian l := by
    intro l
    induction l with
    | nil => rfl
    | cons b rest ih => simp only [List.foldr_cons, ih, ofLittleEndian]; omega
  rw [← h, List.foldr_reverse]

theorem ofBigEndian_eq (bytes : Bytes) : ofBigEndian bytes = ofLittleEndian bytes.reverse :=
  foldl_eq_ofLittleEndian_reverse bytes

theorem ofBigEndian_lt (bytes : Bytes) : ofBigEndian bytes < 256 ^ bytes.length := by
  rw [ofBigEndian_eq, ← List.length_reverse]
  exact ofLittleEndian_lt bytes.reverse

theorem ofBigEndian_bigEndian (width n : Nat) :
    ofBigEndian (bigEndian width n) = n % 256 ^ width := by
  rw [ofBigEndian_eq, bigEndian, List.reverse_reverse, ofLittleEndian_littleEndian]

theorem bigEndian_ofBigEndian (bytes : Bytes) :
    bigEndian bytes.length (ofBigEndian bytes) = bytes := by
  rw [ofBigEndian_eq, bigEndian]
  have h := littleEndian_ofLittleEndian bytes.reverse
  rw [List.length_reverse] at h
  rw [h, List.reverse_reverse]

end BlockSync.Bytes
