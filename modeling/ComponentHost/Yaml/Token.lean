import ComponentHost.Yaml.Scalar

/-!
Dividing a YAML text into tokens.

Blocks are told by their columns: a token further right than the block around it opens one, a token
further left closes those that begin right of it. A scalar or flow collection is a key only if a
colon follows it on its line; so the place of the last candidate is kept, and a key mark is put
before it when the colon comes. Anchors, aliases, tags and directives are refused.
-/

set_option autoImplicit false

namespace ComponentHost.Yaml

inductive Token where
  | documentStart
  | documentEnd
  | blockSequence
  | blockMapping
  | blockEnd
  | flowSequence
  | flowSequenceEnd
  | flowMapping
  | flowMappingEnd
  /-- A dash before an item of a block. -/
  | item
  /-- A comma. -/
  | comma
  | key
  /-- A colon before a value. -/
  | value
  | scalar (plain : Bool) (text : String)
  deriving DecidableEq, Repr

/-- A token that may turn out to begin a key. -/
structure Candidate where
  /-- At this place of its block nothing but a key can stand. -/
  required : Bool
  /-- How many tokens came before it. -/
  place : Nat
  start : Cursor

namespace Candidate

/-- How far a key may extend. -/
def reach : Nat := 1024

/-- No colon can make a key of it any more. -/
def isStale (k : Candidate) (c : Cursor) : Bool :=
  k.start.line < c.line || k.start.index + reach < c.index

end Candidate

/-- The tokens of a text as far as it has been read, and what decides on the next. -/
structure Tokens where
  cursor : Cursor
  done : Array Token := #[]
  /-- The columns of the blocks around, the innermost first. -/
  columns : List Nat := []
  /-- A key may begin at the next token. -/
  keyAllowed : Bool := true
  /-- The candidate inside the innermost flow collection, or outside of all. -/
  candidate : Option Candidate := none
  /-- The candidates around the flow collections, the innermost first. -/
  outer : List (Option Candidate) := []

namespace Tokens

/-- Inside a flow collection. -/
def inFlow (s : Tokens) : Bool := !s.outer.isEmpty

/-- The least column of what belongs to the innermost block. -/
def least (s : Tokens) : Nat :=
  match s.columns with
  | [] => 0
  | column :: _ => column + 1

def put (s : Tokens) (t : Token) : Tokens := { s with done := s.done.push t }

/-- Passes characters that make a token. -/
def putMark (s : Tokens) (t : Token) (length : Nat) : Tokens :=
  { s.put t with cursor := s.cursor.skip length }

def insert (s : Tokens) (place : Nat) (t : Token) : Tokens :=
  { s with done := (s.done.toList.take place ++ t :: s.done.toList.drop place).toArray }

/-- Blanks, line breaks and comments. A tab cannot stand where a key may begin in a block; a byte
order mark may begin a line. -/
def skipTrivia : Nat → Tokens → Tokens
  | 0, s => s
  | fuel + 1, s =>
    let tabs := s.inFlow || !s.keyAllowed
    let c := s.cursor
    let c := if c.column == 0 && c.rest.head? == some '\ufeff' then c.next else c
    let c := c.skipWhile fun ch ↦ ch == ' ' || tabs && ch == '\t'
    let c := if c.rest.head? == some '#' then c.skipLine else c
    if !c.rest.isEmpty && lineEndAt c.rest then
      skipTrivia fuel { s with cursor := c.next, keyAllowed := s.keyAllowed || !s.inFlow }
    else { s with cursor := c }

/-- Drops the candidate; a required one has to become a key. -/
def dropCandidate? (s : Tokens) : Option Tokens :=
  match s.candidate with
  | some k => if k.required then none else some { s with candidate := none }
  | none => some s

/-- Drops the candidates that cannot become keys any more. -/
def dropStale? (s : Tokens) : Option Tokens :=
  let stale (k : Option Candidate) : Bool := (k.map (·.isStale s.cursor)).getD false
  let required (k : Option Candidate) : Bool := (k.map (·.required)).getD false
  if (s.candidate :: s.outer).any fun k ↦ stale k && required k then none
  else some { s with
    candidate := s.candidate.filter (!·.isStale s.cursor)
    outer := s.outer.map (·.filter (!·.isStale s.cursor)) }

/-- The next token may begin a key. -/
def noteCandidate? (s : Tokens) : Option Tokens := do
  if s.keyAllowed then
    let s ← s.dropCandidate?
    let required := !s.inFlow && s.columns.head? == some s.cursor.column
    return { s with candidate := some ⟨required, s.done.size, s.cursor⟩ }
  else return s

/-- Opens a block at a column if none has been opened there; `place` is that of its first token. -/
def openBlock (s : Tokens) (column place : Nat) (t : Token) : Tokens :=
  if s.inFlow || column < s.least then s
  else { s.insert place t with columns := column :: s.columns }

/-- Closes the blocks that begin right of a column. -/
def closeBlocks (s : Tokens) (column : Nat) : Tokens :=
  if s.inFlow then s
  else
    let closed := s.columns.takeWhile (column < ·)
    { s with
      done := s.done ++ (closed.map fun _ ↦ Token.blockEnd).toArray
      columns := s.columns.drop closed.length }

/-- Closes all blocks. -/
def closeAll (s : Tokens) : Tokens :=
  if s.inFlow then s
  else
    { s with
      done := s.done ++ (s.columns.map fun _ ↦ Token.blockEnd).toArray
      columns := [] }

/-! Tokens. -/

def documentMark? (s : Tokens) (t : Token) : Option Tokens := do
  let s ← s.closeAll.dropCandidate?
  return { s with keyAllowed := false }.putMark t 3

def openFlow? (s : Tokens) (t : Token) : Option Tokens := do
  let s ← s.noteCandidate?
  let outer := s.candidate :: s.outer
  return { s with outer, candidate := none, keyAllowed := true }.putMark t 1

def closeFlow? (s : Tokens) (t : Token) : Option Tokens := do
  let s ← s.dropCandidate?
  let s := match s.outer with
    | [] => s
    | k :: outer => { s with candidate := k, outer }
  return { s with keyAllowed := false }.putMark t 1

def comma? (s : Tokens) : Option Tokens := do
  let s ← s.dropCandidate?
  return { s with keyAllowed := true }.putMark .comma 1

def item? (s : Tokens) : Option Tokens := do
  if !s.inFlow && !s.keyAllowed then none
  let s ← (s.openBlock s.cursor.column s.done.size .blockSequence).dropCandidate?
  return { s with keyAllowed := true }.putMark .item 1

def key? (s : Tokens) : Option Tokens := do
  if !s.inFlow && !s.keyAllowed then none
  let s ← (s.openBlock s.cursor.column s.done.size .blockMapping).dropCandidate?
  return { s with keyAllowed := !s.inFlow }.putMark .key 1

def value? (s : Tokens) : Option Tokens :=
  match s.candidate with
  | some k =>
    let s := (s.insert k.place .key).openBlock k.start.column k.place .blockMapping
    some ({ s with candidate := none, keyAllowed := false }.putMark .value 1)
  | none =>
    if !s.inFlow && !s.keyAllowed then none
    else
      let s := s.openBlock s.cursor.column s.done.size .blockMapping
      some ({ s with keyAllowed := !s.inFlow }.putMark .value 1)

def block? (s : Tokens) (fold : Bool) : Option Tokens := do
  let s ← s.dropCandidate?
  let (text, cursor) ← Yaml.block? fold s.least s.cursor.next
  return { s.put (.scalar false text) with cursor, keyAllowed := true }

def quoted? (s : Tokens) (single : Bool) : Option Tokens := do
  let s ← s.noteCandidate?
  let (text, cursor) ← Yaml.quoted? single (s.cursor.rest.length + 1) s.cursor.next []
  return { s.put (.scalar false text) with cursor, keyAllowed := false }

def plain? (s : Tokens) : Option Tokens := do
  let s ← s.noteCandidate?
  let (text, broken, cursor) ← Yaml.plain? s.inFlow s.least s.cursor
  return { s.put (.scalar true text) with cursor, keyAllowed := broken }

/-- The token that begins here. -/
def token? (s : Tokens) : Option Tokens :=
  match s.cursor.rest with
  | [] => none
  | ch :: rest =>
    if s.cursor.atDocumentMark '-' then s.documentMark? .documentStart
    else if s.cursor.atDocumentMark '.' then s.documentMark? .documentEnd
    else if ch == '[' then s.openFlow? .flowSequence
    else if ch == '\x7b' then s.openFlow? .flowMapping
    else if ch == ']' then s.closeFlow? .flowSequenceEnd
    else if ch == '\x7d' then s.closeFlow? .flowMappingEnd
    else if ch == ',' then s.comma?
    else if ch == '-' && spaceAt rest then s.item?
    else if ch == '?' && (s.inFlow || spaceAt rest) then s.key?
    else if ch == ':' && (s.inFlow || spaceAt rest) then s.value?
    else if ch == '|' && !s.inFlow then s.block? false
    else if ch == '>' && !s.inFlow then s.block? true
    else if ch == '\'' then s.quoted? true
    else if ch == '"' then s.quoted? false
    else if plainAt s.inFlow s.cursor.rest then s.plain?
    else none

/-- All tokens up to the end of the text. -/
def all? : Nat → Tokens → Option (List Token)
  | 0, _ => none
  | fuel + 1, s => do
    let s := s.skipTrivia (s.cursor.rest.length + 1)
    let s ← s.dropStale?
    if s.cursor.rest.isEmpty then
      let s ← s.closeAll.dropCandidate?
      return s.done.toList
    else
      let s ← (s.closeBlocks s.cursor.column).token?
      s.all? fuel

/-- The tokens of a text. -/
def ofText? (text : String) : Option (List Token) :=
  let chars := text.toList
  if chars.all isPrintable then all? (chars.length + 1) { cursor := { rest := chars } } else none

end Tokens

end ComponentHost.Yaml
