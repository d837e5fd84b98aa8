import ComponentHost.Yaml.Cursor

/-!
Reading the scalars of a YAML text: plain ones, quoted ones, and blocks of lines.

A text that goes on over lines is folded: one line break between its parts is a space, of several
the first is dropped, and blanks around them do not count.
-/

set_option autoImplicit false

namespace ComponentHost.Yaml

/-! Numbers in characters. -/

def radixDigit? (radix : Nat) (c : Char) : Option Nat :=
  let d? :=
    if c.isDigit then some (c.toNat - 48)
    else if 'a' ≤ c ∧ c ≤ 'f' then some (c.toNat - 87)
    else if 'A' ≤ c ∧ c ≤ 'F' then some (c.toNat - 55)
    else none
  d?.filter (· < radix)

/-- A natural number, one digit or more. -/
def radixNat? (radix : Nat) (s : List Char) : Option Nat :=
  if s.isEmpty then none
  else s.foldl (fun acc c ↦ do return (← acc) * radix + (← radixDigit? radix c)) (some 0)

/-! White space inside a scalar. -/

/-- White space between parts of a scalar: the blanks on its first line, and its line breaks. -/
structure Gap where
  blanks : List Char := []
  breaks : List Char := []

namespace Gap

/-- What stands for the gap in the text. -/
def text (g : Gap) : List Char :=
  match g.breaks with
  | [] => g.blanks
  | ['\n'] => [' ']
  | '\n' :: rest => rest
  | breaks => breaks

end Gap

/-- The gap that begins here; no tab may stand before column `least` of a further line. -/
def gap? (least : Nat) : Nat → Cursor → Gap → Option (Gap × Cursor)
  | 0, c, g => some (g, c)
  | fuel + 1, c, g =>
    match c.rest with
    | [] => some (g, c)
    | ch :: _ =>
      if isBlank ch then
        if g.breaks.isEmpty then gap? least fuel c.next { g with blanks := g.blanks ++ [ch] }
        else if ch == '\t' && c.column < least then none
        else gap? least fuel c.next g
      else if isBreak ch then gap? least fuel c.next { g with breaks := g.breaks ++ [breakText ch] }
      else some (g, c)

/-! Plain scalars. -/

/-- May a plain scalar begin like this? -/
def plainAt (flow : Bool) : List Char → Bool
  | [] => false
  | c :: rest =>
    if c == '-' then !(rest.head?.map isBlank).getD false
    else if c == '?' || c == ':' then !flow && !spaceAt rest
    else !(isBlank c || isBreak c || isFlowMark c
      || ['#', '&', '*', '!', '|', '>', '\'', '"', '%', '@', '\x60'].contains c)

/-- The characters of a plain scalar up to white space or an end of it, the last first, put on
top of `acc`. -/
def plainWord? (flow : Bool) : Nat → Cursor → List Char → Option (List Char × Cursor)
  | 0, c, acc => some (acc, c)
  | fuel + 1, c, acc =>
    match c.rest with
    | [] => some (acc, c)
    | ch :: rest =>
      let beforeFlowMark := (rest.head?.map fun m ↦ isFlowMark m || m == '?').getD false
      if isBlank ch || isBreak ch then some (acc, c)
      else if flow && ch == ':' && beforeFlowMark then none
      else if ch == ':' && spaceAt rest || flow && isFlowMark ch then some (acc, c)
      else plainWord? flow fuel c.next (ch :: acc)

/-- The rest of a plain scalar after `acc`, the last character first, and a gap. Its further lines
begin at column `least` or beyond. The flag tells that a line break came last. -/
def plainText? (flow : Bool) (least : Nat) :
    Nat → Cursor → List Char → Gap → Option (List Char × Bool × Cursor)
  | 0, c, acc, g => some (acc, !g.breaks.isEmpty, c)
  | fuel + 1, c, acc, g =>
    if c.atAnyDocumentMark || c.rest.head? == some '#' then some (acc, !g.breaks.isEmpty, c)
    else do
      let (word, d) ← plainWord? flow (c.rest.length + 1) c []
      if word.isEmpty then some (acc, !g.breaks.isEmpty, c)
      else
        let acc := word ++ g.text.reverse ++ acc
        let (g, e) ← gap? least (d.rest.length + 1) d {}
        if e.index = d.index then some (acc, false, e)
        else if !flow && e.column < least then some (acc, !g.breaks.isEmpty, e)
        else plainText? flow least fuel e acc g

/-- A plain scalar, whether a line break came last, and the cursor behind it. -/
def plain? (flow : Bool) (least : Nat) (c : Cursor) : Option (String × Bool × Cursor) := do
  let (text, broken, d) ← plainText? flow least (c.rest.length + 1) c [] {}
  return (String.ofList text.reverse, broken, d)

/-! Quoted scalars. -/

/-- A character by its hexadecimal number of so many digits. -/
def numbered? (count : Nat) (c : Cursor) : Option (Char × Cursor) := do
  let digits := c.rest.take count
  let n ← radixNat? 16 digits
  if digits.length = count && (Char.ofNat n).toNat = n then
    return (Char.ofNat n, c.skip count)
  else none

/-- The character that is written after a backslash. -/
def escaped? (c : Cursor) : Option (Char × Cursor) :=
  match c.rest with
  | [] => none
  | ch :: _ =>
    match ch with
    | '0' => some ('\x00', c.next)
    | 'a' => some ('\x07', c.next)
    | 'b' => some ('\x08', c.next)
    | 't' => some ('\t', c.next)
    | '\t' => some ('\t', c.next)
    | 'n' => some ('\n', c.next)
    | 'v' => some ('\x0b', c.next)
    | 'f' => some ('\x0c', c.next)
    | 'r' => some ('\r', c.next)
    | 'e' => some ('\x1b', c.next)
    | ' ' => some (' ', c.next)
    | '"' => some ('"', c.next)
    | '/' => some ('/', c.next)
    | '\\' => some ('\\', c.next)
    | 'N' => some ('\u0085', c.next)
    | '_' => some ('\u00a0', c.next)
    | 'L' => some ('\u2028', c.next)
    | 'P' => some ('\u2029', c.next)
    | 'x' => numbered? 2 c.next
    | 'u' => numbered? 4 c.next
    | 'U' => numbered? 8 c.next
    | _ => none

/-- The rest of a text in quotes after `acc`, the last character first. In double quotes a
backslash escapes, and before a line break it takes the break away; in single quotes only the quote
itself can be escaped, by doubling it. -/
def quoted? (single : Bool) : Nat → Cursor → List Char → Option (String × Cursor)
  | 0, _, _ => none
  | fuel + 1, c, acc =>
    if c.atAnyDocumentMark then none
    else
      match c.rest with
      | [] => none
      | ch :: rest =>
        if isBlank ch || isBreak ch then do
          let (g, d) ← gap? 0 (c.rest.length + 1) c {}
          quoted? single fuel d (g.text.reverse ++ acc)
        else if single then
          if ch == '\'' then
            if rest.head? == some '\'' then quoted? single fuel (c.skip 2) ('\'' :: acc)
            else some (String.ofList acc.reverse, c.next)
          else quoted? single fuel c.next (ch :: acc)
        else if ch == '"' then some (String.ofList acc.reverse, c.next)
        else if ch == '\\' then
          if !rest.isEmpty && lineEndAt rest then do
            let d := c.skip 2
            let (g, e) ← gap? 0 (d.rest.length + 1) d {}
            quoted? single fuel e (g.breaks.reverse ++ acc)
          else do
            let (x, d) ← escaped? c.next
            quoted? single fuel d (x :: acc)
        else quoted? single fuel c.next (ch :: acc)

/-! Blocks of lines. -/

/-- How the line breaks at the end of a block are kept. -/
inductive Chomp where
  | strip
  | clip
  | keep
  deriving DecidableEq

def chomp? : List Char → Option Chomp
  | '-' :: _ => some .strip
  | '+' :: _ => some .keep
  | _ => none

/-- A digit that tells the indentation; there is none of zero. -/
def indentation? : List Char → Option Nat
  | ch :: _ => (radixDigit? 10 ch).filter (· ≠ 0)
  | [] => none

/-- The marks after the sign of a block, in either order. -/
def blockHeader (c : Cursor) : Chomp × Option Nat × Cursor :=
  match chomp? c.rest with
  | some chomp =>
    match indentation? c.next.rest with
    | some n => (chomp, some n, c.next.next)
    | none => (chomp, none, c.next)
  | none =>
    match indentation? c.rest with
    | some n =>
      match chomp? c.next.rest with
      | some chomp => (chomp, some n, c.next.next)
      | none => (.clip, some n, c.next)
    | none => (.clip, none, c)

/-- Lines that hold nothing but spaces: their breaks, the widest column reached, and the cursor in
the line after them. Spaces are passed up to column `indent`, if that is known; a tab may not stand
before it. -/
def blankLines? (indent : Option Nat) :
    Nat → Cursor → Nat → List Char → Option (List Char × Nat × Cursor)
  | 0, c, widest, breaks => some (breaks, widest, c)
  | fuel + 1, c, widest, breaks =>
    let spaces := (c.rest.takeWhile (· == ' ')).length
    let c := c.skip (match indent with
      | some n => min spaces (n - c.column)
      | none => spaces)
    let widest := max widest c.column
    let before := match indent with
      | some n => decide (c.column < n)
      | none => true
    match c.rest with
    | [] => some (breaks, widest, c)
    | ch :: _ =>
      if before && ch == '\t' then none
      else if isBreak ch then blankLines? indent fuel c.next widest (breaks ++ [breakText ch])
      else some (breaks, widest, c)

/-- The lines of a block at column `indent`, after `acc`, the last character first. `last` is the
break of the line before, `breaks` are those of the blank lines since, and `blankLed` tells that
the line before begins with a blank. Folding joins lines that do not. -/
def blockLines? (fold : Bool) (indent : Nat) :
    Nat → Cursor → List Char → List Char → List Char → Bool →
      Option (List Char × List Char × List Char × Cursor)
  | 0, c, acc, last, breaks, _ => some (acc, last, breaks, c)
  | fuel + 1, c, acc, last, breaks, blankLed =>
    if c.column ≠ indent || c.rest.isEmpty then some (acc, last, breaks, c)
    else do
      let blank := (c.rest.head?.map isBlank).getD false
      let joined :=
        if fold && last == ['\n'] && !blankLed && !blank then
          if breaks.isEmpty then [' '] else breaks
        else last ++ breaks
      let line := c.rest.takeWhile (!isBreak ·)
      let d := c.skip line.length
      let last := (d.rest.take 1).map breakText
      let (breaks, _, e) ← blankLines? (some indent) (d.rest.length + 1) d.next 0 []
      blockLines? fold indent fuel e (line.reverse ++ joined.reverse ++ acc) last breaks blank

/-- A block of lines after its sign, indented by `least` columns or more. -/
def block? (fold : Bool) (least : Nat) (c : Cursor) : Option (String × Cursor) := do
  let (chomp, given, c) := blockHeader c
  let c := c.skipBlanks
  let c := if c.rest.head? == some '#' then c.skipLine else c
  if !lineEndAt c.rest then none
  let c := c.next
  let given := given.map (least - 1 + ·)
  let (breaks, widest, c) ← blankLines? given (c.rest.length + 1) c 0 []
  let indent := given.getD (max (max widest least) 1)
  let (text, last, breaks, c) ← blockLines? fold indent (c.rest.length + 1) c [] [] breaks false
  let tail := match chomp with
    | .strip => []
    | .clip => last
    | .keep => last ++ breaks
  return (String.ofList (text.reverse ++ tail), c)

end ComponentHost.Yaml
