import BlockSync.Yaml.Cursor

/-! The texts of scalars. A line end inside a plain or quoted text counts as one
space, and each further line end as itself. Block texts keep their line ends, or
fold them in the same way. -/
namespace BlockSync.Yaml

/-- A text with the place after it. -/
abbrev Scanned := String × Cursor

/-- What `count` line ends in a row become. -/
def folded (count : Nat) : List Char :=
  if count = 1 then [' '] else List.replicate (count - 1) '\n'

/-- Splits off blanks and line ends, and counts the line ends. -/
def takeBreaks : List Char → Nat × List Char
  | [] => (0, [])
  | c :: rest =>
    if c = '\n' then
      let (n, rest) := takeBreaks rest
      (n + 1, rest)
    else if isBlank c then takeBreaks rest
    else (0, c :: rest)

/-! Plain texts -/

/-- Whether a plain text ends before this point of a word. -/
def endsPlain (flow : Bool) : List Char → Bool
  | ':' :: rest => endsWord rest
  | c :: _ => flow && isFlowMark c
  | [] => true

/-- The characters up to a blank or the end of the text. -/
def plainWord (flow : Bool) : List Char → List Char
  | [] => []
  | c :: rest =>
    if isBlank c || c = '\n' || endsPlain flow (c :: rest) then []
    else c :: plainWord flow rest

/-- Further words, on lines that reach column `min`. Gives what was read with the
rest, and whether a line end was crossed. -/
def plainWords (flow : Bool) (min : Nat) : Nat → Cursor → List Char × Cursor × Bool
  | 0, c => ([], c, false)
  | fuel + 1, c =>
    let word := plainWord flow c.rest
    let here := c.skip word.length
    let (breaks, rest) := takeBreaks here.rest
    let next := here.skipTo rest
    if word.isEmpty || (plainWord flow rest).isEmpty || rest.head? = some '#' ||
        (breaks > 0 && (next.atMarker || (!flow && next.column < min))) then (word, here, false)
    else
      let between :=
        if breaks > 0 then folded breaks else here.rest.take (here.rest.length - rest.length)
      let (more, last, crossed) := plainWords flow min fuel next
      (word ++ between ++ more, last, crossed || breaks > 0)

/-- Whether a plain text may begin here. -/
def beginsPlain (flow : Bool) : List Char → Bool
  | [] => false
  | c :: rest =>
    if ['-', '?', ':'].contains c then
      !endsWord rest && !(flow && rest.head?.any isFlowMark)
    else !(isBlank c || isFlowMark c || ['#', '&', '*', '!', '|', '>', '\x27', '\x22', '%', '@', '\x60'].contains c)

/-! Quoted texts -/

def hex? (count : Nat) (text : List Char) : Option Char :=
  if text.length < count then none
  else
    match numeral? 16 (text.take count) with
    | some n => if n.isValidChar then some (Char.ofNat n) else none
    | none => none

/-- The character of an escape, with how many characters it takes. -/
def escape? : List Char → Option (Char × Nat)
  | [] => none
  | c :: rest =>
    match c with
    | '0' => some ('\x00', 1)
    | 'a' => some ('\x07', 1)
    | 'b' => some ('\x08', 1)
    | 't' | '\t' => some ('\t', 1)
    | 'n' => some ('\n', 1)
    | 'v' => some ('\x0b', 1)
    | 'f' => some ('\x0c', 1)
    | 'r' => some ('\r', 1)
    | 'e' => some ('\x1b', 1)
    | ' ' | '\x22' | '/' | '\\' => some (c, 1)
    | 'N' => some ('\u0085', 1)
    | '_' => some ('\u00a0', 1)
    | 'L' => some ('\u2028', 1)
    | 'P' => some ('\u2029', 1)
    | 'x' => (hex? 2 rest).map (·, 3)
    | 'u' => (hex? 4 rest).map (·, 5)
    | 'U' => (hex? 8 rest).map (·, 9)
    | _ => none

/-- The text up to the closing quote, and what follows the quote. -/
def quotedText (quote : Char) : Nat → List Char → Option (List Char × List Char)
  | 0, _ => none
  | fuel + 1, text =>
    let after (front rest : List Char) : Option (List Char × List Char) :=
      (quotedText quote fuel rest).map fun (more, rest) => (front ++ more, rest)
    match text with
    | [] => none
    | c :: rest =>
      if c = quote then
        if quote = '\x27' && rest.head? = some '\x27' then after ['\x27'] rest.tail else some ([], rest)
      else if c = '\\' && quote = '\x22' then
        match rest with
        | '\n' :: line => after [] (takeBreaks line).2
        | _ =>
          match escape? rest with
          | some (e, count) => after [e] (rest.drop count)
          | none => none
      else if isBlank c || c = '\n' then
        let (breaks, next) := takeBreaks text
        let line := text.take (text.length - next.length)
        after (if breaks > 0 then folded breaks else line) next
      else after [c] rest

/-! Block texts -/

structure BlockStyle where
  folds : Bool
  /-- Whether the last line end stays: not, once, or with all that follow. -/
  keep : Option Bool
  indent : Option Nat

def BlockStyle.read : List Char → BlockStyle → BlockStyle × List Char
  | '+' :: rest, s => read rest { s with keep := some true }
  | '-' :: rest, s => read rest { s with keep := none }
  | c :: rest, s =>
    if '1' ≤ c ∧ c ≤ '9' then read rest { s with indent := some (c.toNat - 48) } else (s, c :: rest)
  | [], s => (s, [])

def indentOf (line : List Char) : Nat :=
  (line.takeWhile (· = ' ')).length

def isBlankLine (line : List Char) : Bool :=
  line.all (· = ' ')

/-- Joins lines, each with its line end. A folded line end between two lines that
begin with no blank becomes a space. -/
def joinLines (folds : Bool) : List (List Char) → List Char
  | [] => []
  | line :: rest =>
    let blanks := rest.takeWhile List.isEmpty
    let next := rest.drop blanks.length
    let folding := folds && !line.isEmpty && !(line.head?.any isBlank) &&
      (next.head?.any fun l => !(l.head?.any isBlank))
    let more := joinLines folds rest
    if folding then
      line ++ (if blanks.isEmpty then ' ' :: more else more)
    else line ++ '\n' :: more

/-- A block text whose lines reach column `min`. -/
def blockText? (folds : Bool) (min : Nat) (c : Cursor) : Option Scanned :=
  let (style, rest) := BlockStyle.read (c.rest.drop 1) ⟨folds, some false, none⟩
  let (header, body) := rest.span (· ≠ '\n')
  let comment := header.dropWhile isBlank
  if !(comment.isEmpty || (comment.head? = some '#' && header.head?.any isBlank)) then none
  else
    let lines := (body.drop 1).splitOn '\n'
    let deepest := (lines.find? fun l => !isBlankLine l).elim 0 indentOf
    let indent := match style.indent with
      | some n => min - 1 + n
      | none => max deepest (max min 1)
    let marker (l : List Char) : Bool := (Cursor.start l).atMarker
    let inside := lines.takeWhile fun l => (isBlankLine l || indentOf l ≥ indent) && !marker l
    let texts := inside.map (List.drop indent)
    let used := texts.reverse.dropWhile List.isEmpty |>.reverse
    let trailing := texts.length - used.length
    let ended := inside.length = lines.length
    let content := joinLines folds used
    let text :=
      if style.keep = none || (ended && trailing = 0) then content.dropLast
      else if style.keep = some true then
        content ++ List.replicate (if ended then trailing - 1 else trailing) '\n'
      else content
    let left := (lines.drop inside.length).intersperse ['\n'] |>.flatten
    some (String.ofList text, { c with rest := left, column := 0, fresh := true })

end BlockSync.Yaml
