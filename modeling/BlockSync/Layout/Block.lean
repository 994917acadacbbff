import BlockSync.Block
import BlockSync.Layout

/-! Layouts of hashes, headers and bodies, and the step that puts a header and an
encoded body together: the body must decode and have the root the header names. -/
namespace BlockSync

namespace Layout

def hash : Layout Hash := word.convert (fun w => .ok ⟨w⟩) Hash.word

def nodeId : Layout NodeId :=
  (raw 32).convert (fun value => .ok (NodeId.ofBytes value)) NodeId.toBytes

def header : Layout Header :=
  (u64.pair (hash.pair (u64.pair (word.pair (hash.pair (bytes.pair (bytes.pair bytes))))))).convert
    (fun (number, parent, timestamp, difficulty, root, extra, key, signature) =>
      .ok ⟨number, parent, timestamp, difficulty, root, extra, key, signature⟩)
    fun h => (h.number, h.parentHash, h.timestamp, h.difficulty, h.txRoot, h.extraData,
      h.publicKey, h.signature)

def body : Layout Body :=
  (list bytes).convert (fun transactions => .ok ⟨transactions⟩) Body.transactions

end Layout

namespace Body

def encode (b : Body) : Bytes :=
  Layout.body.write b

/-- Bytes after the encoding are ignored. -/
def decode (raw : Bytes) : Except LayoutError Body :=
  Layout.body.decode raw

end Body

/-- The block of a header and an encoded body, if the body's root is the header's. -/
def Block.assemble? (header : Header) (raw : Bytes) : Option Block :=
  match Body.decode raw with
  | .ok body => if body.root = header.txRoot then some ⟨header, body⟩ else none
  | .error _ => none

end BlockSync
