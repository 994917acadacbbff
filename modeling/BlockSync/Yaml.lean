/-! Configuration documents as trees. A scalar keeps whether it was written without
quotes, because only then it can be a number, a truth value or nothing. -/
namespace BlockSync

inductive Yaml where
  | scalar (text : String) (plain : Bool)
  | list (items : List Yaml)
  | record (fields : List (String × Yaml))
  deriving Inhabited, Repr

namespace Yaml

/-- What stands where nothing is written. -/
def empty : Yaml := scalar "" true

def isEmpty : Yaml → Bool
  | scalar text plain => plain && text = ""
  | _ => false

def isNull : Yaml → Bool
  | scalar text plain => plain && ["", "~", "null", "Null", "NULL"].contains text
  | _ => false

/-- Every scalar is a text. -/
def text? : Yaml → Option String
  | scalar text _ => some text
  | _ => none

def items? : Yaml → Option (List Yaml)
  | list items => some items
  | y => if y.isEmpty then some [] else none

def fields? : Yaml → Option (List (String × Yaml))
  | record fields => some fields
  | y => if y.isEmpty then some [] else none

def flag? : Yaml → Option Bool
  | scalar text true =>
    if ["true", "True", "TRUE"].contains text then some true
    else if ["false", "False", "FALSE"].contains text then some false
    else none
  | _ => none

def digit? (radix : Nat) (c : Char) : Option Nat :=
  let n :=
    if c.isDigit then c.toNat - 48
    else if 'a' ≤ c ∧ c ≤ 'f' then c.toNat - 87
    else if 'A' ≤ c ∧ c ≤ 'F' then c.toNat - 55
    else radix
  if n < radix then some n else none

/-- A number in a radix; a text without digits is none. -/
def numeral? (radix : Nat) : List Char → Option Nat
  | [] => none
  | c :: rest =>
    (c :: rest).foldl (fun n c => do return radix * (← n) + (← digit? radix c)) (some 0)

/-- A plus sign may stand in front, then `0x`, `0o` or `0b`. Decimal numbers do not
begin with a needless zero. -/
def unsigned? (text : String) : Option Nat :=
  let digits := match text.toList with
    | '+' :: rest => rest
    | all => all
  match digits with
  | '0' :: 'x' :: rest => numeral? 16 rest
  | '0' :: 'o' :: rest => numeral? 8 rest
  | '0' :: 'b' :: rest => numeral? 2 rest
  | '0' :: _ :: _ => none
  | _ => numeral? 10 digits

def number? (bound : Nat) : Yaml → Option Nat
  | scalar text true => (unsigned? text).filter (· < bound)
  | _ => none

/-- A value that may be left out by writing nothing or `null`. -/
def optional? {α : Type} (read : Yaml → Option α) (y : Yaml) : Option (Option α) :=
  if y.isNull then some none else (read y).map some

/-- The value of a field, `default` if it is not there. It must not be there twice. -/
def field? {α : Type} (fields : List (String × Yaml)) (name : String) (default : α)
    (read : Yaml → Option α) : Option α :=
  match fields.filter fun f => f.1 = name with
  | [] => some default
  | [(_, y)] => read y
  | _ => none

end Yaml

end BlockSync
