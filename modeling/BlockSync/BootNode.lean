import BlockSync.Address
import BlockSync.Identity

/-! Boot nodes as users write them: `p2p://` with a node id, an at sign and a socket
address. -/
namespace BlockSync

structure BootNode where
  node : NodeId
  address : SocketAddress
  deriving DecidableEq, Repr

namespace BootNode

inductive Error where
  | missingScheme
  | missingSeparator
  | node (cause : HexError)
  | address
  deriving DecidableEq, Repr

def Error.message : Error → String
  | missingScheme => "missing p2p:// scheme"
  | missingSeparator => "missing '@'"
  | node cause => "invalid node id: " ++ cause.message
  | address => "invalid socket address: invalid socket address syntax"

def hasScheme (text : String) : Bool :=
  "p2p://".toList.isPrefixOf text.toList

/-- The first at sign ends the node id. -/
def ofText (text : String) : Except Error BootNode :=
  if hasScheme text then
    let rest := text.toList.drop 6
    let id := rest.takeWhile (· ≠ '@')
    match rest.drop id.length with
    | [] => .error .missingSeparator
    | _ :: address =>
      match NodeId.ofText (String.ofList id) with
      | .error cause => .error (.node cause)
      | .ok node =>
        match SocketAddress.ofText? (String.ofList address) with
        | some address => .ok ⟨node, address⟩
        | none => .error .address
  else .error .missingScheme

end BootNode

end BlockSync
