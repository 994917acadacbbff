import BlockSync.Proofs.Wire.Exactness

/-! What bodies a header takes. An encoded body is read back whatever follows it, and a header
takes it if the root is the one it names. Digests have a fixed width, so bodies with one root
have one list of transactions, collisions of the digest aside: a header takes one body. -/
namespace BlockSync

namespace Sha256

/-- Two messages with one digest. -/
def Collision (message other : Bytes) : Prop :=
  message ≠ other ∧ digest message = digest other

theorem length_digest (message : Bytes) : (digest message).length = 32 := by
  simp [digest]

theorem digest_append_ne_nil (message rest : Bytes) : digest message ++ rest ≠ [] := by
  intro none
  have size := congrArg List.length none
  rw [List.length_append, length_digest] at size
  simp at size

/-- Digests that are joined without marks between them still tell the list of messages. -/
theorem eq_or_collision_of_joined {messages others : List Bytes}
    (joined : messages.flatMap digest = others.flatMap digest) :
    messages = others ∨ ∃ message ∈ messages, ∃ other ∈ others, Collision message other := by
  induction messages generalizing others with
  | nil =>
    cases others with
    | nil => exact .inl rfl
    | cons other others => exact absurd joined.symm (digest_append_ne_nil other _)
  | cons message messages ih =>
    cases others with
    | nil => exact absurd joined (digest_append_ne_nil message _)
    | cons other others =>
      rw [List.flatMap_cons, List.flatMap_cons] at joined
      obtain ⟨first, rest⟩ :=
        List.append_inj joined ((length_digest message).trans (length_digest other).symm)
      by_cases same : message = other
      · rcases ih rest with equal | ⟨x, listed, y, listed', collision⟩
        · exact .inl (by rw [same, equal])
        · exact .inr ⟨x, List.mem_cons_of_mem _ listed, y, List.mem_cons_of_mem _ listed', collision⟩
      · exact .inr ⟨message, List.mem_cons_self, other, List.mem_cons_self, same, first⟩

end Sha256

theorem Hash.ofBytes_inj {bytes other : Bytes} (width : bytes.length = 32)
    (width' : other.length = 32) (same : ofBytes bytes = ofBytes other) : bytes = other := by
  have back : (ofBytes bytes).toBytes = (ofBytes other).toBytes := congrArg toBytes same
  unfold toBytes ofBytes at back
  rwa [Layout.bigEndian_ofNat width, Layout.bigEndian_ofNat width'] at back

namespace Body

/-- What is digested for the root of a body. -/
def digested (b : Body) : List Bytes :=
  b.transactions.flatMap Sha256.digest :: b.transactions

/-- Somewhere under their roots, two different messages have one digest. -/
def Collides (b c : Body) : Prop :=
  ∃ message ∈ b.digested, ∃ other ∈ c.digested, Sha256.Collision message other

variable {b c : Body} {raw : Bytes}

theorem eq_or_collides_of_root (same : b.root = c.root) : b = c ∨ b.Collides c := by
  have digests := Hash.ofBytes_inj (Sha256.length_digest _) (Sha256.length_digest _) same
  by_cases joined : b.transactions.flatMap Sha256.digest = c.transactions.flatMap Sha256.digest
  · rcases Sha256.eq_or_collision_of_joined joined with equal | ⟨x, listed, y, listed', collision⟩
    · obtain ⟨transactions⟩ := b
      obtain ⟨others⟩ := c
      exact .inl (congrArg Body.mk equal)
    · exact .inr ⟨x, List.mem_cons_of_mem _ listed, y, List.mem_cons_of_mem _ listed', collision⟩
  · exact .inr ⟨_, List.mem_cons_self, _, List.mem_cons_self, joined, digests⟩

theorem exact_layout : Layout.body.Exact :=
  Layout.exact_bytes.list.convert fun _ made => by cases made; rfl

theorem decode_encode_append (bound : b.encode.length < 2 ^ 64) (rest : Bytes) :
    decode (b.encode ++ rest) = .ok b :=
  (Layout.faithful_body b bound).decode rest

theorem encode_prefix_of_decode (decoded : decode raw = .ok b) : b.encode <+: raw := by
  obtain ⟨⟨found, rest⟩, read, rfl⟩ := Except.map_eq_ok decoded
  exact ⟨rest, (exact_layout read).symm⟩

theorem decode_eq_ok_iff (bound : raw.length < 2 ^ 64) : decode raw = .ok b ↔ b.encode <+: raw := by
  refine ⟨encode_prefix_of_decode, ?_⟩
  rintro ⟨rest, rfl⟩
  rw [List.length_append] at bound
  exact decode_encode_append (by omega) rest

end Body

namespace Block

variable {header : Header} {raw : Bytes} {block : Block}

theorem assemble?_eq_some_iff : assemble? header raw = some block ↔
    block.header = header ∧ block.body.root = header.txRoot ∧ Body.decode raw = .ok block.body := by
  unfold assemble?
  constructor
  · intro made
    split at made
    · rename_i body decoded
      split at made
      · rename_i root
        cases made
        exact ⟨rfl, root, decoded⟩
      · cases made
    · cases made
  · rintro ⟨rfl, root, decoded⟩
    rw [decoded]
    exact if_pos root

/-- A block is made again of its header and its encoded body if they belong together. -/
theorem assemble?_encode_eq (bound : block.body.encode.length < 2 ^ 64) :
    assemble? block.header block.body.encode =
      if block.body.root = block.header.txRoot then some block else none := by
  have read := Body.decode_encode_append bound []
  rw [List.append_nil] at read
  rw [assemble?, read]

theorem assemble?_encode (root : block.body.root = block.header.txRoot)
    (bound : block.body.encode.length < 2 ^ 64) :
    assemble? block.header block.body.encode = some block := by
  rw [assemble?_encode_eq bound, if_pos root]

/-- A header makes a block of the bytes that begin with an encoded body of its root, as long as
lengths fit into the eight bytes that they are written in, and the block has that header and
that body. Whatever else it makes a block of, the block is the same: bodies with one root are
equal, or somewhere under the root is a collision. -/
theorem one_body_for_header (header : Header) {raw : Bytes} (bound : raw.length < 2 ^ 64) :
    (∀ block, assemble? header raw = some block ↔
      block.header = header ∧ block.body.root = header.txRoot ∧ block.body.encode <+: raw) ∧
    (∀ more block other, assemble? header raw = some block → assemble? header more = some other →
      block = other ∨ block.body.Collides other.body) ∧
    (∀ body other : Body, body.root = other.root → body = other ∨ body.Collides other) ∧
    ∀ body : Body, body.root = header.txRoot → body.encode.length < 2 ^ 64 →
      assemble? header body.encode = some ⟨header, body⟩ := by
  refine ⟨?_, ?_, fun _ _ => Body.eq_or_collides_of_root, ?_⟩
  · intro block
    rw [assemble?_eq_some_iff, Body.decode_eq_ok_iff bound]
  · intro more block other made made'
    obtain ⟨taken, root, -⟩ := assemble?_eq_some_iff.1 made
    obtain ⟨taken', root', -⟩ := assemble?_eq_some_iff.1 made'
    refine (Body.eq_or_collides_of_root (root.trans root'.symm)).imp_left ?_
    intro same
    obtain ⟨_, _⟩ := block
    obtain ⟨_, _⟩ := other
    exact congr (congrArg Block.mk (taken.trans taken'.symm)) same
  · intro body root short
    let block : Block := ⟨header, body⟩
    exact block.assemble?_encode root short

/-- Bytes behind the body do not matter, and where a transaction ends does. -/
theorem one_body_for_moved_boundary :
    let body : Body := ⟨[[1], [2, 3]]⟩
    let moved : Body := ⟨[[1, 2], [3]]⟩
    let header := { Header.empty with txRoot := body.root }
    (body.encode ++ [0xff]).length < 2 ^ 64 ∧
      assemble? header (body.encode ++ [0xff]) = some ⟨header, body⟩ ∧
      ∀ block, assemble? header moved.encode = some block → body.Collides block.body := by
  intro body moved header
  have short : (body.encode ++ [0xff]).length < 2 ^ 64 := by decide
  have short' : moved.encode.length < 2 ^ 64 := by decide
  obtain ⟨taken, once, -, -⟩ := one_body_for_header header short
  have made : assemble? header (body.encode ++ [0xff]) = some ⟨header, body⟩ :=
    (taken _).2 ⟨rfl, rfl, List.prefix_append _ _⟩
  refine ⟨short, made, ?_⟩
  intro block made'
  refine (once _ _ _ made made').resolve_left ?_
  rintro rfl
  have inside := ((one_body_for_header header short').1 _).1 made'
  exact absurd inside.2.2 (by decide)

end Block

end BlockSync
