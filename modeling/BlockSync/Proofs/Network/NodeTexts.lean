import BlockSync.BootNode
import BlockSync.Proofs.Bytes.Hex
import BlockSync.Proofs.Wire.Messages
import Mathlib.Data.List.TakeWhile

/-! Texts of nodes. A node id is read from 64 hexadecimal digits, with or without one `0x` in
front, and is printed as those digits in lower case. A boot node is `p2p://`, a node id, an at
sign and a socket address; the first at sign ends the id, so there is none in the id but there may
be more in the address. A text that is no boot node is refused for its first part that fails. -/
namespace BlockSync

namespace NodeId

variable {s digits : String} {id : NodeId} {cause : HexError}

/-- The text without its prefix. -/
inductive Bare : String → String → Prop
  | plain {s : String} (none : ∀ rest, s ≠ "0x" ++ rest) : Bare s s
  | prefixed (digits : String) : Bare ("0x" ++ digits) digits

theorem exists_bare (s : String) : ∃ digits, Bare s digits := by
  by_cases found : ∃ rest, s = "0x" ++ rest
  · obtain ⟨rest, rfl⟩ := found
    exact ⟨rest, .prefixed rest⟩
  · exact ⟨s, .plain fun rest same => found ⟨rest, same⟩⟩

theorem Bare.ofText_eq (h : Bare s digits) : ofText s = (Hex.decode 32 digits).map ofBytes := by
  cases h with
  | prefixed =>
    simp only [ofText, String.toList_append]
    rw [show "0x".toList = ['0', 'x'] from rfl]
    simp only [List.cons_append, List.nil_append, String.ofList_toList]
  | plain none =>
    unfold ofText
    split
    rename_i text rest found
    · refine absurd ?_ (none (String.ofList rest))
      simp [← String.toList_inj, found]
    · rfl

theorem ofBytes_toBytes (id : NodeId) : ofBytes id.toBytes = id :=
  congrArg NodeId.mk (Layout.ofNat_bigEndian 32 id.word)

theorem toBytes_ofBytes {bytes : Bytes} (size : bytes.length = 32) :
    (ofBytes bytes).toBytes = bytes := by
  have bound := Bytes.ofBigEndian_lt bytes
  rw [size] at bound
  rw [toBytes, ofBytes, BitVec.toNat_ofNat, show 2 ^ 256 = 256 ^ 32 from rfl,
    Nat.mod_eq_of_lt bound, ← size, Bytes.bigEndian_ofBigEndian]

theorem toList_text (id : NodeId) : id.text.toList = Hex.encodeList id.toBytes :=
  String.toList_ofList

theorem toList_toLower (s : String) : s.toLower.toList = s.toList.map Char.toLower :=
  String.toList_map

theorem Bare.ofText_eq_ok_iff (h : Bare s digits) :
    ofText s = .ok id ↔ id.text = digits.toLower := by
  rw [h.ofText_eq, ← String.toList_inj, toList_text, toList_toLower]
  constructor
  · intro read
    cases decoded : Hex.decode 32 digits with
    | error cause => rw [decoded] at read; cases read
    | ok bytes =>
      rw [decoded] at read
      cases read
      obtain ⟨size, written⟩ := Hex.decode_eq_ok_iff.1 decoded
      rw [toBytes_ofBytes size, written]
  · intro written
    rw [Hex.decode_eq_ok_iff.2 ⟨Bytes.length_bigEndian 32 _, written.symm⟩]
    exact congrArg Except.ok (ofBytes_toBytes id)

theorem Bare.exists_ofText_iff (h : Bare s digits) :
    (∃ id, ofText s = .ok id) ↔ digits.length = 64 ∧ ∀ c ∈ digits.toList, Hex.IsDigit c := by
  have read : (∃ bytes, Hex.decode 32 digits = .ok bytes) ↔
      digits.length = 2 * 32 ∧ ∀ c ∈ digits.toList, Hex.IsDigit c := Hex.exists_decode_iff
  rw [h.ofText_eq, ← read]
  cases Hex.decode 32 digits with
  | error cause => simp [Except.map]
  | ok bytes => simp [Except.map]

theorem Bare.ofText_eq_error_iff (h : Bare s digits) :
    ofText s = .error cause ↔ Hex.Fault 32 digits.toUTF8.toList cause := by
  rw [h.ofText_eq, ← Hex.decode_eq_error_iff]
  cases Hex.decode 32 digits with
  | error cause => simp [Except.map]
  | ok bytes => simp [Except.map]

/-- The text of an id is in lower case already, and begins with no prefix. -/
theorem bare_text (id : NodeId) : Bare id.text id.text ∧ id.text.toLower = id.text := by
  have small : ∀ c ∈ id.text.toList, ∃ n < 16, c = Hex.digit n := by
    intro c inside
    rw [toList_text] at inside
    exact Hex.mem_encodeList inside
  constructor
  · refine .plain fun rest same => ?_
    obtain ⟨n, bound, equal⟩ := small 'x' (by simp [same])
    have apart : ∀ n < 16, 'x' ≠ Hex.digit n := by decide +kernel
    exact apart n bound equal
  · have lower : ∀ n < 16, (Hex.digit n).toLower = Hex.digit n := by decide +kernel
    rw [← String.toList_inj, toList_toLower]
    refine (List.map_congr_left fun c inside => ?_).trans (List.map_id _)
    obtain ⟨n, bound, rfl⟩ := small c inside
    exact lower n bound

theorem ofText_text (id : NodeId) : ofText id.text = .ok id := by
  obtain ⟨bare, lower⟩ := bare_text id
  exact bare.ofText_eq_ok_iff.2 lower.symm

/-- Digits have no prefix of their own. -/
theorem bare_of_digits (sound : ∀ c ∈ digits.toList, Hex.IsDigit c)
    (spelled : s = digits ∨ s = "0x" ++ digits) : Bare s digits := by
  rcases spelled with rfl | rfl
  · refine .plain fun rest same => ?_
    exact absurd (sound 'x' (by simp [same])) (by decide)
  · exact .prefixed digits

theorem Bare.spelled (h : Bare s digits) : s = digits ∨ s = "0x" ++ digits := by
  cases h with
  | plain => exact .inl rfl
  | prefixed => exact .inr rfl

end NodeId

namespace BootNode

variable {s t a : String} {node : NodeId} {address : SocketAddress}

/-- What a text reads as. -/
inductive Reads : String → Except Error BootNode → Prop
  | missingScheme {s : String} (none : ∀ rest, s ≠ "p2p://" ++ rest) :
      Reads s (.error .missingScheme)
  | missingSeparator {rest : String} (none : '@' ∉ rest.toList) :
      Reads ("p2p://" ++ rest) (.error .missingSeparator)
  | node {t a : String} {cause : HexError} (first : '@' ∉ t.toList)
      (refused : NodeId.ofText t = .error cause) :
      Reads ("p2p://" ++ t ++ "@" ++ a) (.error (.node cause))
  | address {t a : String} {node : NodeId} (first : '@' ∉ t.toList)
      (read : NodeId.ofText t = .ok node) (refused : SocketAddress.ofText? a = none) :
      Reads ("p2p://" ++ t ++ "@" ++ a) (.error .address)
  | ok {t a : String} {node : NodeId} {address : SocketAddress} (first : '@' ∉ t.toList)
      (read : NodeId.ofText t = .ok node) (found : SocketAddress.ofText? a = some address) :
      Reads ("p2p://" ++ t ++ "@" ++ a) (.ok ⟨node, address⟩)

theorem hasScheme_iff : hasScheme s = true ↔ ∃ rest, s = "p2p://" ++ rest := by
  rw [hasScheme, List.isPrefixOf_iff_prefix]
  constructor
  · rintro ⟨rest, same⟩
    exact ⟨String.ofList rest, by simp [← String.toList_inj, ← same]⟩
  · rintro ⟨rest, rfl⟩
    rw [String.toList_append]
    exact List.prefix_append _ _

theorem drop_scheme (rest : String) : ("p2p://" ++ rest).toList.drop 6 = rest.toList := by
  rw [String.toList_append]
  exact List.drop_left' rfl

theorem ofText_unseparated (none : '@' ∉ s.toList) :
    ofText ("p2p://" ++ s) = .error .missingSeparator := by
  have whole : s.toList.takeWhile (· ≠ '@') = s.toList :=
    List.takeWhile_eq_self_iff.2 fun c inside => decide_eq_true fun same => none (same ▸ inside)
  rw [ofText, if_pos (hasScheme_iff.2 ⟨s, rfl⟩)]
  simp only [drop_scheme, whole, List.drop_length]

/-- Behind the scheme, the text is split at its first at sign, and the id is read first. -/
theorem ofText_separated (first : '@' ∉ t.toList) (a : String) :
    ofText ("p2p://" ++ t ++ "@" ++ a) =
      match NodeId.ofText t with
      | .error cause => .error (.node cause)
      | .ok node =>
        match SocketAddress.ofText? a with
        | some address => .ok ⟨node, address⟩
        | none => .error .address := by
  have rest : "p2p://" ++ t ++ "@" ++ a = "p2p://" ++ (t ++ "@" ++ a) := by
    simp only [String.append_assoc]
  have listed : (t ++ "@" ++ a).toList = t.toList ++ '@' :: a.toList := by
    simp only [String.toList_append, List.append_assoc]
    rfl
  have apart : ∀ c ∈ t.toList, decide (c ≠ '@') = true :=
    fun c inside => decide_eq_true fun same => first (same ▸ inside)
  have id : (t.toList ++ '@' :: a.toList).takeWhile (· ≠ '@') = t.toList := by
    rw [List.takeWhile_append_of_pos apart, List.takeWhile_cons_of_neg (by simp), List.append_nil]
  rw [rest, ofText, if_pos (hasScheme_iff.2 ⟨_, rfl⟩)]
  cases read : NodeId.ofText t <;> cases found : SocketAddress.ofText? a <;>
    simp only [drop_scheme, listed, id, List.drop_left, String.ofList_toList, read, found]

theorem reads_ofText (s : String) : Reads s (ofText s) := by
  by_cases scheme : ∃ rest, s = "p2p://" ++ rest
  · obtain ⟨rest, rfl⟩ := scheme
    by_cases separated : '@' ∈ rest.toList
    · obtain ⟨id, address, split, first⟩ := List.eq_append_cons_of_mem separated
      obtain rfl : rest = String.ofList id ++ "@" ++ String.ofList address := by
        rw [← String.toList_inj, split]
        simp
      rw [← String.append_assoc, ← String.append_assoc]
      rw [← String.toList_ofList (l := id)] at first
      rw [ofText_separated first]
      cases read : NodeId.ofText (String.ofList id) with
      | error cause => exact .node first read
      | ok node =>
        cases found : SocketAddress.ofText? (String.ofList address) with
        | none => exact .address first read found
        | some address => exact .ok first read found
    · rw [ofText_unseparated separated]
      exact .missingSeparator separated
  · rw [ofText, if_neg fun found => scheme (hasScheme_iff.1 found)]
    exact .missingScheme fun rest same => scheme ⟨rest, same⟩

theorem ofText_eq_iff {result : Except Error BootNode} : ofText s = result ↔ Reads s result := by
  constructor
  · rintro rfl
    exact reads_ofText s
  · intro reads
    cases reads with
    | missingScheme none =>
      rw [ofText, if_neg fun found => ?_]
      obtain ⟨rest, same⟩ := hasScheme_iff.1 found
      exact none rest same
    | missingSeparator none => exact ofText_unseparated none
    | node first refused => rw [ofText_separated first, refused]
    | address first read refused => rw [ofText_separated first, read, refused]
    | ok first read found => rw [ofText_separated first, read, found]

end BootNode

/-- A node id is read from 64 digits of either case, behind one prefix or none, and its own text
is those digits in lower case, which give it back. Any other text is refused for the first fault
of what is behind the prefix. A text reads as a boot node by its scheme, its first at sign, the
node id before that and the address after it, and is refused for the first of these that fails. -/
theorem texts_of_nodes (s : String) :
    ((∃ id, NodeId.ofText s = .ok id) ↔
      ∃ digits, (s = digits ∨ s = "0x" ++ digits) ∧ digits.length = 64 ∧
        ∀ c ∈ digits.toList, Hex.IsDigit c) ∧
    (∀ id, NodeId.ofText s = .ok id ↔
      ∃ digits, NodeId.Bare s digits ∧ id.text = digits.toLower) ∧
    (∀ cause, NodeId.ofText s = .error cause ↔
      ∃ digits, NodeId.Bare s digits ∧ Hex.Fault 32 digits.toUTF8.toList cause) ∧
    (∀ id : NodeId, NodeId.ofText id.text = .ok id) ∧
    ∀ result, BootNode.ofText s = result ↔ BootNode.Reads s result := by
  refine ⟨?_, ?_, ?_, NodeId.ofText_text, fun result => BootNode.ofText_eq_iff⟩
  · constructor
    · intro accepted
      obtain ⟨digits, bare⟩ := NodeId.exists_bare s
      exact ⟨digits, bare.spelled, bare.exists_ofText_iff.1 accepted⟩
    · rintro ⟨digits, spelled, size, sound⟩
      exact (NodeId.bare_of_digits sound spelled).exists_ofText_iff.2 ⟨size, sound⟩
  · intro id
    constructor
    · intro read
      obtain ⟨digits, bare⟩ := NodeId.exists_bare s
      exact ⟨digits, bare, bare.ofText_eq_ok_iff.1 read⟩
    · rintro ⟨digits, bare, same⟩
      exact bare.ofText_eq_ok_iff.2 same
  · intro cause
    constructor
    · intro refused
      obtain ⟨digits, bare⟩ := NodeId.exists_bare s
      exact ⟨digits, bare, bare.ofText_eq_error_iff.1 refused⟩
    · rintro ⟨digits, bare, fault⟩
      exact bare.ofText_eq_error_iff.2 fault

end BlockSync
