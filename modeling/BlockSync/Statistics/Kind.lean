import BlockSync.Text.Quoted

/-! The kinds of statistics that a node can show with its status line. Names are
read in either case, ASCII letters only. -/
namespace BlockSync

inductive StatisticsKind where
  | requests
  | seeds
  | leeches
  | responses
  | systemInfo
  deriving DecidableEq, Repr

namespace StatisticsKind

/-- In the order in which they are shown. -/
def all : List StatisticsKind := [requests, seeds, leeches, responses, systemInfo]

def name : StatisticsKind → String
  | requests => "requests"
  | seeds => "seeds"
  | leeches => "leeches"
  | responses => "responses"
  | systemInfo => "systeminfo"

def ofName? (name : String) : Option StatisticsKind :=
  all.find? fun kind => kind.name = name

structure Unknown where
  text : String
  deriving DecidableEq, Repr

def Unknown.message (e : Unknown) : String :=
  "unknown statistics type " ++ Text.quote e.text

def ofText (text : String) : Except Unknown StatisticsKind :=
  let lower := String.ofList (text.toList.map Char.toLower)
  match ofName? lower with
  | some kind => .ok kind
  | none => .error ⟨lower⟩

theorem ofName?_name (kind : StatisticsKind) : ofName? kind.name = some kind := by
  cases kind <;> rfl

/-- Each chosen kind once, in the order in which they are shown. -/
def ordered (chosen : List StatisticsKind) : List StatisticsKind :=
  all.filter (chosen.contains ·)

end StatisticsKind

end BlockSync
