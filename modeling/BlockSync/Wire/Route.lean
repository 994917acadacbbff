/-! Where a message belongs: a protocol version, a control group and an action in it. -/
namespace BlockSync

structure Route where
  version : UInt16
  control : UInt8
  action : UInt8
  deriving DecidableEq, Hashable, Repr

namespace Route

def net : UInt8 := 0

def sync : UInt8 := 1

def code (r : Route) : UInt32 :=
  (r.version.toUInt32 <<< 16) ||| (r.control.toUInt32 <<< 8) ||| r.action.toUInt32

def text (r : Route) : String :=
  r.version.toNat.repr ++ "/" ++ r.control.toNat.repr ++ "/" ++ r.action.toNat.repr

def isKnownVersion (version : UInt16) : Bool :=
  version = 0 ∨ version = 1

def isKnownControl (control : UInt8) : Bool :=
  control = net ∨ control = sync

end Route

end BlockSync
