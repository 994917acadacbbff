import BlockSync.Yaml

/-! A place in a configuration document: what follows, the column, whether the line
was blank up to here, and the nodes that were named so far. -/
namespace BlockSync.Yaml

structure Cursor where
  rest : List Char
  column : Nat
  /-- A key may begin here, and blanks before it are spaces only. -/
  fresh : Bool
  anchors : List (String × Yaml)

def isBlank (c : Char) : Bool :=
  c = ' ' || c = '\t'

def endsWord : List Char → Bool
  | [] => true
  | c :: _ => isBlank c || c = '\n'

def isFlowMark (c : Char) : Bool :=
  [',', '[', ']', '\x7b', '\x7d'].contains c

namespace Cursor

def start (text : List Char) : Cursor :=
  ⟨text, 0, true, []⟩

def columnAfter (column : Nat) : List Char → Nat
  | [] => column
  | c :: rest => columnAfter (if c = '\n' then 0 else column + 1) rest

/-- Moves over the next characters, which are not blank. -/
def skip (c : Cursor) (count : Nat) : Cursor :=
  { c with
    rest := c.rest.drop count
    column := columnAfter c.column (c.rest.take count)
    fresh := false }

def skipTo (c : Cursor) (rest : List Char) : Cursor :=
  c.skip (c.rest.length - rest.length)

/-- Moves over blanks, line ends and comments. Where a key may begin a tab is no blank. -/
def gapFrom (flow : Bool) (anchors : List (String × Yaml)) :
    List Char → Nat → Bool → Bool → Cursor
  | [], column, fresh, _ => ⟨[], column, fresh, anchors⟩
  | '\n' :: rest, _, _, _ => gapFrom flow anchors rest 0 true false
  | c :: rest, column, fresh, comment =>
    if comment || c = '#' then gapFrom flow anchors rest (column + 1) fresh true
    else if c = ' ' || (c = '\t' && (flow || !fresh)) then
      gapFrom flow anchors rest (column + 1) fresh false
    else ⟨c :: rest, column, fresh, anchors⟩

def gap (c : Cursor) (flow : Bool) : Cursor :=
  gapFrom flow c.anchors c.rest c.column c.fresh false

/-- Whether a line begins here that starts or ends a document. -/
def atMarker (c : Cursor) : Bool :=
  c.column = 0 &&
    (("---".toList.isPrefixOf c.rest || "...".toList.isPrefixOf c.rest) && endsWord (c.rest.drop 3))

def atEnd (c : Cursor) : Bool :=
  c.rest.isEmpty || c.atMarker

/-- Moves over a colon that makes a key of what stands before it on the line. -/
def afterColon? (c : Cursor) : Option Cursor :=
  let rest := c.rest.dropWhile isBlank
  match rest with
  | ':' :: tail => if endsWord tail then some (c.skipTo tail) else none
  | _ => none

def isDash (c : Cursor) : Bool :=
  match c.rest with
  | '-' :: tail => endsWord tail
  | _ => false

end Cursor

end BlockSync.Yaml
