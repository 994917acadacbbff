import BlockSync.Header.Rules
import BlockSync.Proofs.Wire.Layouts
import BlockSync.Signature.Ecdsa

/-! What the rules accept. A header passes the standard rules if its extra data is short, its
timestamp is not ahead, and its signature is accepted. Keys and signatures of the curve have few
lengths, so accepted headers are short. -/
namespace BlockSync

variable {scheme : SignatureScheme} {now : UInt64} {h : Header}

namespace HeaderRule

theorem check_extraData_iff {maxLength : Nat} :
    (extraData maxLength).check scheme now h = .ok () ↔ h.extraData.length ≤ maxLength := by
  rw [check]
  split
  · rename_i long
    exact iff_of_false nofun (Nat.not_le.2 long)
  · rename_i short
    exact iff_of_true rfl (Nat.not_lt.1 short)

theorem check_futureTimestamp_iff {maxDrift : UInt64} :
    (futureTimestamp maxDrift).check scheme now h = .ok () ↔
      h.timestamp.toNat ≤ latestTimestamp now maxDrift := by
  rw [check]
  split
  · rename_i late
    exact iff_of_false nofun (Nat.not_le.2 late)
  · rename_i early
    exact iff_of_true rfl (Nat.not_lt.1 early)

theorem check_signature_iff : signature.check scheme now h = .ok () ↔
    scheme.verify h.publicKey h.mineHash.toBytes h.signature = .ok () := by
  rw [check]
  split <;> rename_i verified <;> rw [verified] <;> simp

end HeaderRule

theorem validateHeader_eq_ok_iff {rules : List HeaderRule} :
    validateHeader scheme now rules h = .ok () ↔ ∀ rule ∈ rules, rule.check scheme now h = .ok () := by
  induction rules with
  | nil => exact iff_of_true rfl fun _ member => absurd member List.not_mem_nil
  | cons rule rest ih =>
    rw [List.forall_mem_cons, ← ih]
    change (rule.check scheme now h >>= fun _ => validateHeader scheme now rest h) = _ ↔ _
    cases rule.check scheme now h with
    | error cause => exact iff_of_false nofun (by rintro ⟨ok, -⟩; cases ok)
    | ok => exact (and_iff_right rfl).symm

theorem validateHeader_standard_iff {config : ChainConfig} :
    validateHeader scheme now (HeaderRule.standard config) h = .ok () ↔
      h.extraData.length ≤ config.maxExtraDataLength ∧
      h.timestamp.toNat ≤ latestTimestamp now config.maxFutureDrift ∧
      scheme.verify h.publicKey h.mineHash.toBytes h.signature = .ok () := by
  rw [validateHeader_eq_ok_iff, HeaderRule.standard, List.forall_mem_cons, List.forall_mem_cons,
    List.forall_mem_singleton, HeaderRule.check_extraData_iff, HeaderRule.check_futureTimestamp_iff,
    HeaderRule.check_signature_iff]

namespace Ecdsa

theorem length_of_scalar? {bytes : Bytes} {n : Nat} (read : scalar? bytes = some n) :
    bytes.length = 32 := by
  unfold scalar? at read
  dsimp only at read
  split at read
  · rename_i fits
    exact fits.1
  · cases read

theorem length_of_readSignature {bytes : Bytes} {pair : Nat × Nat}
    (read : readSignature bytes = some pair) : bytes.length = 64 := by
  obtain ⟨r, front, rest⟩ := Option.bind_eq_some_iff.1 read
  obtain ⟨s, back, -⟩ := Option.bind_eq_some_iff.1 rest
  have left := length_of_scalar? front
  have right := length_of_scalar? back
  rw [List.length_take] at left
  rw [List.length_drop] at right
  omega

theorem length_of_readPublicKey {bytes : Bytes} {point : Curve.Point}
    (read : readPublicKey bytes = some point) : bytes.length ≤ 65 := by
  cases bytes with
  | nil => cases read
  | cons tag rest =>
    rw [readPublicKey] at read
    rw [List.length_cons]
    split at read
    · rename_i compressed
      omega
    · split at read
      · rename_i full
        omega
      · cases read

theorem lengths_of_verify {key message signature : Bytes}
    (accepted : verify key message signature = .ok ()) :
    key.length ≤ 65 ∧ signature.length = 64 := by
  unfold verify at accepted
  split at accepted
  · cases accepted
  · rename_i point key_read
    split at accepted
    · cases accepted
    · rename_i r s signature_read
      exact ⟨length_of_readPublicKey key_read, length_of_readSignature signature_read⟩

end Ecdsa

/-- A header that is accepted takes little more than its extra data. -/
theorem Header.length_of_accepted {config : ChainConfig}
    (accepted : validateHeader Ecdsa.scheme now (HeaderRule.standard config) h = .ok ()) :
    (Layout.header.write h).length ≤ 289 + config.maxExtraDataLength := by
  obtain ⟨extra, -, verified⟩ := validateHeader_standard_iff.1 accepted
  obtain ⟨key, signature⟩ := Ecdsa.lengths_of_verify verified
  rw [Layout.length_header_write]
  omega

end BlockSync
