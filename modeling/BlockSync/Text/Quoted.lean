import BlockSync.Text.Unprintable

/-! Text between quotes. The usual control characters, the backslash and the
quote in use take a backslash; other unprintable code points are written as
`\u` with the hexadecimal number in braces. -/
namespace BlockSync.Text

def codePoint (c : Char) : List Char :=
  '\\' :: 'u' :: '\x7b' :: (Nat.toDigits 16 c.toNat ++ ['\x7d'])

def escape (quote c : Char) : List Char :=
  if c = '\x00' then ['\\', '0']
  else if c = '\t' then ['\\', 't']
  else if c = '\r' then ['\\', 'r']
  else if c = '\n' then ['\\', 'n']
  else if c = '\\' ∨ c = quote then ['\\', c]
  else if isUnprintable c then codePoint c
  else [c]

def quote (text : String) : String :=
  String.ofList ('\x22' :: (text.toList.flatMap (escape '\x22') ++ ['\x22']))

def quoteChar (c : Char) : String :=
  String.ofList ('\x27' :: (escape '\x27' c ++ ['\x27']))

end BlockSync.Text
