import ComponentHost.Number.Double

/-!
JSON values.

An object is the list of its entries. `Json.ofEntries` and `Entries.insert` keep the keys in
increasing order, each once, a later entry replacing an earlier one; the order of strings by code
point is also the order of their UTF-8 bytes. Integers between `-2 ^ 63` and `2 ^ 64 - 1` are kept
exactly and every other number is a double.
-/

set_option autoImplicit false

namespace ComponentHost

/-- A JSON number. -/
inductive Number where
  | int (value : Int)
  | float (value : Double)
  deriving DecidableEq, Repr

/-- A JSON value. -/
inductive Json where
  | null
  | bool (value : Bool)
  | num (value : Number)
  | str (value : String)
  | arr (items : List Json)
  | obj (entries : List (String × Json))
  deriving Repr, Inhabited

/-- The entries of an object. -/
abbrev Entries := List (String × Json)

namespace Entries

/-- The value under a key. -/
def get? (entries : Entries) (key : String) : Option Json := entries.lookup key

/-- Puts a value under a key, in the place the order of keys gives it. -/
def insert (key : String) (value : Json) : Entries → Entries
  | [] => [(key, value)]
  | (k, v) :: rest =>
    if key < k then (key, value) :: (k, v) :: rest
    else if key = k then (key, value) :: rest
    else (k, v) :: insert key value rest

end Entries

namespace Json

/-- The object with these entries; of two with one key the later counts. -/
def ofEntries (entries : Entries) : Json :=
  .obj (entries.foldl (fun acc e ↦ Entries.insert e.1 e.2 acc) [])

def ofInt (value : Int) : Json := .num (.int value)

def ofNat (value : Nat) : Json := .num (.int value)

def strings (items : List String) : Json := .arr (items.map .str)

/-- The value under a key of an object; anything else has no keys. -/
def get? : Json → String → Option Json
  | .obj entries, key => Entries.get? entries key
  | _, _ => none

def str? : Json → Option String
  | .str s => some s
  | _ => none

def arr? : Json → Option (List Json)
  | .arr items => some items
  | _ => none

def obj? : Json → Option Entries
  | .obj entries => some entries
  | _ => none

mutual

/-- Nesting depth; a value without parts has depth 1. -/
def depth : Json → Nat
  | .arr items => depthList items + 1
  | .obj entries => depthEntries entries + 1
  | _ => 1

def depthList : List Json → Nat
  | [] => 0
  | x :: rest => max x.depth (depthList rest)

def depthEntries : List (String × Json) → Nat
  | [] => 0
  | (_, v) :: rest => max v.depth (depthEntries rest)

end

end Json

end ComponentHost
