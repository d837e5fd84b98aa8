import ComponentHost.Json.Basic
import ComponentHost.Yaml.Node

/-!
The values that YAML documents stand for.

A plain scalar stands for null, a truth value, an integer, a float or a text after the core schema
of YAML 1.2; a quoted one is always a text. Digits after a leading zero make a text.
-/

set_option autoImplicit false

namespace ComponentHost.Yaml

/-! Plain scalars. -/

/-- Digits that begin with a zero, more than one of them. -/
def zeroLed (s : List Char) : Bool :=
  let s := match s with
    | '-' :: rest => rest
    | '+' :: rest => rest
    | s => s
  match s with
  | '0' :: d :: rest => (d :: rest).all Char.isDigit
  | _ => false

/-- An integer after its sign, in the radix it names. -/
def magnitude? (s : List Char) : Option Nat :=
  match s with
  | '0' :: 'x' :: rest => radixNat? 16 rest
  | '0' :: 'o' :: rest => radixNat? 8 rest
  | '0' :: 'b' :: rest => radixNat? 2 rest
  | _ => if zeroLed s then none else radixNat? 10 s

/-- An integer of no more than 128 bits. -/
def int? (s : List Char) : Option Int :=
  let n? := match s with
    | '-' :: rest => (magnitude? rest).map fun n ↦ Int.neg n
    | '+' :: rest => (magnitude? rest).map Int.ofNat
    | _ => (magnitude? s).map Int.ofNat
  n?.filter fun n ↦ -(Int.pow 2 127) ≤ n && n < Int.pow 2 128

/-- The exponent of a float, with its sign. -/
def exponent? : List Char → Option Int
  | [] => some 0
  | e :: rest =>
    if e = 'e' || e = 'E' then
      match rest with
      | '-' :: rest => (radixNat? 10 rest).map fun n ↦ Int.neg n
      | '+' :: rest => (radixNat? 10 rest).map Int.ofNat
      | rest => (radixNat? 10 rest).map Int.ofNat
    else none

/-- A finite float without a sign. -/
def float? (s : List Char) : Option Double :=
  let whole := s.takeWhile Char.isDigit
  let rest := s.drop whole.length
  let (places, rest) := match rest with
    | '.' :: rest => (rest.takeWhile Char.isDigit, rest.dropWhile Char.isDigit)
    | rest => ([], rest)
  if whole.isEmpty && places.isEmpty then none
  else do
    let exponent ← exponent? rest
    let digits ← radixNat? 10 (whole ++ places)
    let scale := exponent - (places.length : Int)
    let d :=
      if digits = 0 then Double.zero
      else if scale > 400 then Double.infinity
      else if scale + ((whole ++ places).length : Int) < -400 then Double.zero
      else if scale ≥ 0 then Double.ofRatio (digits * Nat.pow 10 scale.toNat) 1
      else Double.ofRatio digits (Nat.pow 10 (-scale).toNat)
    if d.isInfinite then none else some d

def signedFloat? (s : List Char) : Option Double :=
  match s with
  | '-' :: rest => (float? rest).map Double.neg
  | '+' :: rest => float? rest
  | _ => float? s

/-- Spellings of infinity and of no number; as JSON they are `null`. -/
def notFinite : List String :=
  [".inf", ".Inf", ".INF", "+.inf", "+.Inf", "+.INF", "-.inf", "-.Inf", "-.INF", ".nan", ".NaN",
    ".NAN"]

/-- The value of a plain scalar. An integer has none if it takes more than 64 bits; beyond 128 bits
its digits make a float. -/
def plainValue? (text : String) : Option Json :=
  if ["", "null", "Null", "NULL", "~"].contains text then some .null
  else if ["true", "True", "TRUE"].contains text then some (.bool true)
  else if ["false", "False", "FALSE"].contains text then some (.bool false)
  else
    match int? text.toList with
    | some n =>
      if -0x8000000000000000 ≤ n && n ≤ 0xffffffffffffffff then some (.num (.int n)) else none
    | none =>
      if notFinite.contains text then some .null
      else if zeroLed text.toList then some (.str text)
      else
        match signedFloat? text.toList with
        | some d => some (.num (.float d))
        | none => some (.str text)

namespace Node

mutual

/-- How deep collections are nested. -/
def depth : Node → Nat
  | .scalar _ _ => 0
  | .sequence items => itemsDepth items + 1
  | .mapping entries => entriesDepth entries + 1

def itemsDepth : List Node → Nat
  | [] => 0
  | x :: rest => max x.depth (itemsDepth rest)

def entriesDepth : List (Node × Node) → Nat
  | [] => 0
  | (_, value) :: rest => max value.depth (entriesDepth rest)

end

mutual

/-- The value a node stands for; of two entries with one key the later counts. -/
def toJson? : Node → Option Json
  | .scalar true text => plainValue? text
  | .scalar false text => some (.str text)
  | .sequence items => (itemsToJson? items).map .arr
  | .mapping entries => (entriesToJson? [] entries).map .obj

def itemsToJson? : List Node → Option (List Json)
  | [] => some []
  | x :: rest => do return (← x.toJson?) :: (← itemsToJson? rest)

def entriesToJson? (acc : Entries) : List (Node × Node) → Option Entries
  | [] => some acc
  | (key, value) :: rest => do
    let name ← key.text?
    let v ← value.toJson?
    entriesToJson? (acc.insert name v) rest

end

end Node

end ComponentHost.Yaml
