import ComponentHost.Yaml.Token

/-!
YAML documents as trees, read from their tokens.

Every reading here is given the tokens that are left and returns those behind what it has read.
-/

set_option autoImplicit false

namespace ComponentHost.Yaml

/-- A part of a document. -/
inductive Node where
  | scalar (plain : Bool) (text : String)
  | sequence (items : List Node)
  | mapping (entries : List (Node × Node))
  deriving Repr, Inhabited

namespace Node

/-- What stands where nothing is written. -/
def empty : Node := .scalar true ""

def isEmpty : Node → Bool
  | .scalar plain text => plain && text == ""
  | _ => false

/-- The text of a scalar, however it is written. -/
def text? : Node → Option String
  | .scalar _ text => some text
  | _ => none

end Node

/-- A node that has been read, and the tokens behind it. -/
abbrev Reading := Node × List Token

/-- Do the tokens go on with what can follow a missing node of a block? -/
def endsBlockNode : List Token → Bool
  | .key :: _ | .value :: _ | .blockEnd :: _ => true
  | _ => false

/-- Do the tokens go on with what can follow a missing node of a flow collection? -/
def endsFlowNode : List Token → Bool
  | .comma :: _ | .flowSequenceEnd :: _ | .flowMappingEnd :: _ => true
  | _ => false

/-- Passes the comma that stands before every part of a flow collection but the first. -/
def separated? (first : Bool) (ts : List Token) : Option (List Token) :=
  match first, ts with
  | true, ts => some ts
  | false, .comma :: ts => some ts
  | false, _ => none

namespace Node

mutual

/-- A node; only in a block can blocks begin. -/
def node? (block : Bool) : Nat → List Token → Option Reading
  | 0, _ => none
  | fuel + 1, ts =>
    match ts with
    | .scalar plain text :: ts => some (.scalar plain text, ts)
    | .flowSequence :: ts => flowItems? true fuel [] ts
    | .flowMapping :: ts => flowEntries? true fuel [] ts
    | .blockSequence :: ts => if block then blockItems? fuel [] ts else none
    | .blockMapping :: ts => if block then blockEntries? fuel [] ts else none
    | _ => none

/-- The items of a sequence in a block of its own. -/
def blockItems? : Nat → List Node → List Token → Option Reading
  | 0, _, _ => none
  | fuel + 1, items, ts =>
    match ts with
    | .item :: .item :: ts => blockItems? fuel (.empty :: items) (.item :: ts)
    | .item :: .blockEnd :: ts => some (.sequence (.empty :: items).reverse, ts)
    | .item :: ts => do
      let (n, ts) ← node? true fuel ts
      blockItems? fuel (n :: items) ts
    | .blockEnd :: ts => some (.sequence items.reverse, ts)
    | _ => none

/-- The items of a sequence that is not indented against the mapping around it. -/
def bareItems? : Nat → List Node → List Token → Option Reading
  | 0, _, _ => none
  | fuel + 1, items, ts =>
    match ts with
    | .item :: .item :: ts => bareItems? fuel (.empty :: items) (.item :: ts)
    | .item :: ts =>
      if endsBlockNode ts then bareItems? fuel (.empty :: items) ts
      else do
        let (n, ts) ← node? true fuel ts
        bareItems? fuel (n :: items) ts
    | ts => some (.sequence items.reverse, ts)

/-- A key or value of a mapping in a block, which may be missing. -/
def entryNode? : Nat → List Token → Option Reading
  | 0, _ => none
  | fuel + 1, ts =>
    if endsBlockNode ts then some (.empty, ts)
    else
      match ts with
      | .item :: _ => bareItems? fuel [] ts
      | _ => node? true fuel ts

/-- The entries of a mapping in a block. -/
def blockEntries? : Nat → List (Node × Node) → List Token → Option Reading
  | 0, _, _ => none
  | fuel + 1, entries, ts =>
    match ts with
    | .key :: ts => do
      let (key, ts) ← entryNode? fuel ts
      match ts with
      | .value :: ts =>
        let (value, ts) ← entryNode? fuel ts
        blockEntries? fuel ((key, value) :: entries) ts
      | ts => blockEntries? fuel ((key, .empty) :: entries) ts
    | .blockEnd :: ts => some (.mapping entries.reverse, ts)
    | _ => none

/-- The value of an entry in a flow collection, which may be missing. -/
def flowValue? : Nat → List Token → Option Reading
  | 0, _ => none
  | fuel + 1, ts =>
    match ts with
    | .value :: ts => if endsFlowNode ts then some (.empty, ts) else node? false fuel ts
    | ts => some (.empty, ts)

/-- The items of a flow sequence; an entry among them is a mapping of its own. -/
def flowItems? (first : Bool) : Nat → List Node → List Token → Option Reading
  | 0, _, _ => none
  | fuel + 1, items, ts =>
    match ts with
    | .flowSequenceEnd :: ts => some (.sequence items.reverse, ts)
    | ts => do
      match ← separated? first ts with
      | .flowSequenceEnd :: ts => some (.sequence items.reverse, ts)
      | .key :: ts =>
        let (key, ts) ← match ts with
          | .value :: ts | .comma :: ts | .flowSequenceEnd :: ts => some (.empty, ts)
          | ts => node? false fuel ts
        let (value, ts) ← flowValue? fuel ts
        flowItems? false fuel (.mapping [(key, value)] :: items) ts
      | ts =>
        let (n, ts) ← node? false fuel ts
        flowItems? false fuel (n :: items) ts

/-- The entries of a flow mapping. -/
def flowEntries? (first : Bool) : Nat → List (Node × Node) → List Token → Option Reading
  | 0, _, _ => none
  | fuel + 1, entries, ts =>
    match ts with
    | .flowMappingEnd :: ts => some (.mapping entries.reverse, ts)
    | ts => do
      match ← separated? first ts with
      | .flowMappingEnd :: ts => some (.mapping entries.reverse, ts)
      | .key :: ts =>
        let (key, ts) ← match ts with
          | .value :: _ | .comma :: _ | .flowMappingEnd :: _ => some (.empty, ts)
          | ts => node? false fuel ts
        let (value, ts) ← flowValue? fuel ts
        flowEntries? false fuel ((key, value) :: entries) ts
      | ts =>
        let (key, ts) ← node? false fuel ts
        flowEntries? false fuel ((key, .empty) :: entries) ts

end

/-- The tree of a document, which may be empty, with at most so many nested readings. -/
def document? (fuel : Nat) (ts : List Token) : Option Reading :=
  match ts with
  | [] => some (.empty, [])
  | .documentStart :: ts =>
    match ts with
    | [] | .documentStart :: _ | .documentEnd :: _ => some (.empty, ts)
    | ts => node? true fuel ts
  | ts => node? true fuel ts

/-- The tree of one document with nothing after it. -/
def ofTokens? (ts : List Token) : Option Node := do
  let (n, ts) ← document? (3 * ts.length + 3) ts
  if ts.all (· == .documentEnd) then some n else none

def ofText? (text : String) : Option Node := (Tokens.ofText? text).bind ofTokens?

end Node

end ComponentHost.Yaml
