import BlockSync.Yaml.Scalar

/-! Reads documents. Nesting is told by columns, or by brackets and braces inside
which columns do not count. Keys are scalars on one line. -/
namespace BlockSync.Yaml

abbrev Read := Option (Yaml × Cursor)

/-- A scalar with its text, where it ends, and whether it stays on one line. -/
def scalar? (flow : Bool) (min : Nat) (c : Cursor) : Option (Yaml × Cursor × Bool) :=
  match c.rest with
  | q :: rest =>
    if q = '\x22' || q = '\x27' then
      match quotedText q (rest.length + 1) rest with
      | some (text, left) =>
        let used := c.rest.take (c.rest.length - left.length)
        some (.scalar (String.ofList text) false, c.skipTo left, !used.contains '\n')
      | none => none
    else if beginsPlain flow c.rest then
      let (text, last, crossed) := plainWords flow min (c.rest.length + 1) c
      some (.scalar (String.ofList text) true, last, !crossed)
    else none
  | [] => none

def key? (c : Cursor) : Option (String × Cursor) :=
  match scalar? false (c.column + 1) c with
  | some (.scalar text _, last, true) => last.afterColon?.map fun next => (text, next)
  | _ => none

def isName (c : Char) : Bool :=
  c.isAlphanum || c = '-' || c = '_'

/-- The word after a mark, up to a blank; inside brackets, also up to one of theirs. -/
def markWord (flow : Bool) (text : List Char) : List Char :=
  text.takeWhile fun c => !(isBlank c || c = '\n' || (flow && isFlowMark c))

def named (name : String) : Read → Read
  | some (y, c) => some (y, { c with anchors := (name, y) :: c.anchors })
  | none => none

mutual

/-- A node that reaches column `min`. A record, or a list with dashes, may begin here
only if `keys` says so. -/
def node : Nat → Nat → Bool → Cursor → Read
  | 0, _, _, _ => none
  | fuel + 1, min, keys, c =>
    let inner (rest : List Char) : Read :=
      let next := (c.skipTo rest).gap false
      if next.atEnd || next.column < min then some (.empty, next)
      else node fuel min (keys || next.fresh) next
    match c.rest with
    | '&' :: rest =>
      let name := rest.takeWhile isName
      if name.isEmpty then none
      else named (String.ofList name) (inner (rest.drop name.length))
    | '!' :: rest => inner (rest.drop (markWord false rest).length)
    | '*' :: rest =>
      let name := rest.takeWhile isName
      (c.anchors.lookup (String.ofList name)).map fun y => (y, c.skip (name.length + 1))
    | '[' :: _ => flowItems fuel [] (c.skip 1)
    | '\x7b' :: _ => flowFields fuel [] (c.skip 1)
    | '|' :: _ => (blockText? false min c).map fun (text, c) => (.scalar text false, c)
    | '>' :: _ => (blockText? true min c).map fun (text, c) => (.scalar text false, c)
    | _ =>
      if c.isDash then if keys then blockItems fuel c.column [] c else none
      else
        match (if keys then key? c else none) with
        | some (key, next) => blockFields fuel c.column [] key next
        | none => (scalar? false min c).map fun (y, c, _) => (y, c)

/-- The fields of a record at a column, after the colon of `key`. -/
def blockFields : Nat → Nat → List (String × Yaml) → String → Cursor → Read
  | 0, _, _, _, _ => none
  | fuel + 1, column, done, key, c =>
    let next := c.gap false
    let value : Read :=
      if next.atEnd then some (.empty, next)
      else if !next.fresh then node fuel (column + 1) false next
      else if next.column > column then node fuel (column + 1) true next
      else if next.column = column && next.isDash then blockItems fuel column [] next
      else some (.empty, next)
    match value with
    | none => none
    | some (y, after) =>
      let done := (key, y) :: done
      let after := after.gap false
      if after.atEnd || (after.fresh && after.column < column) then some (.record done.reverse, after)
      else if !after.fresh || after.column > column || after.isDash then none
      else
        match key? after with
        | some (key, next) => blockFields fuel column done key next
        | none => none

/-- The items of a list at a column, from a dash on. -/
def blockItems : Nat → Nat → List Yaml → Cursor → Read
  | 0, _, _, _ => none
  | fuel + 1, column, done, c =>
    let next := { c.skip 1 with fresh := true }.gap false
    let item : Read :=
      if next.atEnd || next.column ≤ column then some (.empty, next)
      else node fuel (column + 1) true next
    match item with
    | none => none
    | some (y, after) =>
      let done := y :: done
      let after := after.gap false
      if !after.atEnd && after.fresh && after.column = column && after.isDash then
        blockItems fuel column done after
      else if after.atEnd || (after.fresh && after.column ≤ column) then
        some (.list done.reverse, after)
      else none

def flowNode : Nat → Cursor → Read
  | 0, _ => none
  | fuel + 1, c =>
    let inner (rest : List Char) : Read :=
      let next := (c.skipTo rest).gap true
      if next.rest.head?.any fun m => m = ',' || m = ']' || m = '\x7d' then some (.empty, next)
      else flowNode fuel next
    match c.rest with
    | '&' :: rest =>
      let name := rest.takeWhile isName
      if name.isEmpty then none else named (String.ofList name) (inner (rest.drop name.length))
    | '!' :: rest => inner (rest.drop (markWord true rest).length)
    | '*' :: rest =>
      let name := rest.takeWhile isName
      (c.anchors.lookup (String.ofList name)).map fun y => (y, c.skip (name.length + 1))
    | '[' :: _ => flowItems fuel [] (c.skip 1)
    | '\x7b' :: _ => flowFields fuel [] (c.skip 1)
    | _ => if c.atMarker then none else (scalar? true 0 c).map fun (y, c, _) => (y, c)

/-- A value after the colon of a key, or nothing if there is no colon. -/
def flowValue : Nat → Cursor → Read
  | 0, _ => none
  | fuel + 1, c =>
    match c.rest with
    | ':' :: _ =>
      let next := (c.skip 1).gap true
      if next.rest.head?.any fun m => m = ',' || m = ']' || m = '\x7d' then some (.empty, next)
      else flowNode fuel next
    | _ => some (.empty, c)

def flowItems : Nat → List Yaml → Cursor → Read
  | 0, _, _ => none
  | fuel + 1, done, c =>
    let c := c.gap true
    match c.rest with
    | ']' :: _ => some (.list done.reverse, c.skip 1)
    | _ =>
      match flowNode fuel c with
      | none => none
      | some (y, next) =>
        let next := next.gap true
        let item : Read :=
          match next.rest, y with
          | ':' :: _, .scalar key _ => (flowValue fuel next).map fun (v, c) => (.record [(key, v)], c)
          | _, _ => some (y, next)
        match item with
        | none => none
        | some (y, next) =>
          let next := next.gap true
          match next.rest with
          | ',' :: _ => flowItems fuel (y :: done) (next.skip 1)
          | ']' :: _ => some (.list (y :: done).reverse, next.skip 1)
          | _ => none

/-- The fields of a record after its brace or a comma. -/
def flowFields : Nat → List (String × Yaml) → Cursor → Read
  | 0, _, _ => none
  | fuel + 1, done, c =>
    let c := c.gap true
    match c.rest with
    | '\x7d' :: _ => some (.record done.reverse, c.skip 1)
    | _ =>
      match flowNode fuel c with
      | some (.scalar key _, next) =>
        match flowValue fuel (next.gap true) with
        | none => none
        | some (v, next) =>
          let next := next.gap true
          match next.rest with
          | ',' :: _ => flowFields fuel ((key, v) :: done) (next.skip 1)
          | '\x7d' :: _ => some (.record ((key, v) :: done).reverse, next.skip 1)
          | _ => none
      | _ => none

end

/-- What may stand in a document. -/
def isAllowed (c : Char) : Bool :=
  c = '\t' || c = '\n' || (' ' ≤ c && c ≤ '~') || c = '\u0085' ||
    ('\u00a0' ≤ c && c ≠ '\ufeff' && c ≠ '\ufffe' && c ≠ '\uffff')

def joinReturns : List Char → List Char
  | '\r' :: '\n' :: rest => '\n' :: joinReturns rest
  | '\r' :: rest => '\n' :: joinReturns rest
  | c :: rest => c :: joinReturns rest
  | [] => []

/-- Moves over directives, which come before the marker of a document. -/
def skipDirectives : Nat → Cursor → Cursor
  | 0, c => c
  | fuel + 1, c =>
    match c.rest with
    | '%' :: _ => skipDirectives fuel ((c.skip (c.rest.takeWhile (· ≠ '\n')).length).gap false)
    | _ => c

/-- Moves over a marker of three characters. -/
def skipMarker (c : Cursor) : Cursor :=
  { c.skip 3 with fresh := false }.gap false

def isEndMark (c : Cursor) : Bool :=
  c.atMarker && c.rest.head? = some '.'

/-- The documents from here on, after those that are done. -/
def documentsFrom : Nat → List Yaml → Cursor → Option (List Yaml)
  | 0, _, _ => none
  | fuel + 1, done, c =>
    let c := skipDirectives fuel ({ c with anchors := [] }.gap false)
    if c.rest.isEmpty then some done.reverse
    else if isEndMark c then documentsFrom fuel done (skipMarker c)
    else
      let marked := c.atMarker
      let c := if marked then skipMarker c else c
      let root : Read :=
        if c.atEnd then some (.empty, c)
        else node (3 * c.rest.length + 3) 0 c.fresh c
      match root with
      | none => none
      | some (y, after) =>
        let after := after.gap false
        if after.rest.isEmpty then some (y :: done).reverse
        else if after.atMarker then documentsFrom fuel (y :: done) after
        else none

/-- All documents of a text, if it is well formed. -/
def documents? (text : String) : Option (List Yaml) :=
  let chars := joinReturns text.toList
  let chars := if chars.head? = some '\ufeff' then chars.tail else chars
  if chars.all isAllowed then documentsFrom (chars.length + 1) [] (.start chars) else none

/-- The document of a text that has no more than one. A text without any has the
empty one. -/
def ofText? (text : String) : Option Yaml :=
  match documents? text with
  | some [] => some .empty
  | some [y] => some y
  | _ => none

end BlockSync.Yaml
