/-!
A place in a YAML text, and the classes of its characters.

A line ends with a line feed, a carriage return, both, a next-line, a line separator or a paragraph
separator; the last two are kept as they are where a text goes on over lines, all others count as
line feeds.
-/

set_option autoImplicit false

namespace ComponentHost.Yaml

/-- What is left to read, and where that begins. -/
structure Cursor where
  rest : List Char
  /-- How many bytes of UTF-8 came before. -/
  index : Nat := 0
  line : Nat := 0
  column : Nat := 0

def isBlank (c : Char) : Bool := c == ' ' || c == '\t'

def isBreak (c : Char) : Bool :=
  c == '\n' || c == '\r' || c == '\u0085' || c == '\u2028' || c == '\u2029'

/-- What a line break stands for inside a text. -/
def breakText (c : Char) : Char := if c == '\u2028' || c == '\u2029' then c else '\n'

/-- Does a blank, a line break or the end come here? -/
def spaceAt : List Char → Bool
  | [] => true
  | c :: _ => isBlank c || isBreak c

/-- Does a line break or the end come here? -/
def lineEndAt : List Char → Bool
  | [] => true
  | c :: _ => isBreak c

/-- Brackets, braces and commas have a meaning of their own in flow collections. -/
def isFlowMark (c : Char) : Bool := c == ',' || c == '[' || c == ']' || c == '\x7b' || c == '\x7d'

/-- Characters a document may hold. -/
def isPrintable (c : Char) : Bool :=
  let n := c.toNat
  c == '\t' || c == '\n' || c == '\r' || c == '\u0085' || 0x20 ≤ n && n ≤ 0x7e
    || 0xa0 ≤ n && n ≤ 0xfffd || 0x10000 ≤ n

namespace Cursor

/-- Behind the next character or line break. -/
def next (c : Cursor) : Cursor :=
  match c.rest with
  | [] => c
  | '\r' :: '\n' :: rest => ⟨rest, c.index + 2, c.line + 1, 0⟩
  | ch :: rest =>
    if isBreak ch then ⟨rest, c.index + ch.utf8Size, c.line + 1, 0⟩
    else ⟨rest, c.index + ch.utf8Size, c.line, c.column + 1⟩

def skip (c : Cursor) : Nat → Cursor
  | 0 => c
  | n + 1 => c.next.skip n

/-- Behind the characters of a line that satisfy a test. -/
def skipWhile (c : Cursor) (test : Char → Bool) : Cursor :=
  c.skip (c.rest.takeWhile test).length

def skipBlanks (c : Cursor) : Cursor := c.skipWhile isBlank

/-- At the end of the line. -/
def skipLine (c : Cursor) : Cursor := c.skipWhile (!isBreak ·)

/-- Three marks at the beginning of a line begin or end a document. -/
def atDocumentMark (c : Cursor) (mark : Char) : Bool :=
  c.column == 0 && c.rest.take 3 == [mark, mark, mark] && spaceAt (c.rest.drop 3)

def atAnyDocumentMark (c : Cursor) : Bool := c.atDocumentMark '-' || c.atDocumentMark '.'

end Cursor

end ComponentHost.Yaml
