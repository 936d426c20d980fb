set_option autoImplicit false

/-! JSON values as a schema document is read. An object keeps its entries in document
order: the order in which nodes, bases, fields and options keys are written is part of a
schema's meaning, and it decides which of two faults is reported first. A number keeps the
class the reader gave it (an unsigned integer, a negative integer, or a double held by its
bits), since the text written for it depends on that class. -/

namespace NodeSchema

/-- A JSON number in the class the reader assigns it. -/
inductive JsonNumber where
  /-- An integer literal without sign, below `2 ^ 64`. -/
  | natural (value : Nat)
  /-- A negative integer literal, at least `-2 ^ 63`. -/
  | negative (value : Int)
  /-- Any other number, rounded to the nearest binary64 double and held by its bits. -/
  | double (bits : UInt64)
  deriving DecidableEq, Repr, Inhabited

/-- A JSON value whose objects keep their entries in document order. -/
inductive Json where
  | null
  | bool (value : Bool)
  | number (value : JsonNumber)
  | string (value : String)
  | array (items : List Json)
  | object (entries : List (String × Json))
  deriving Repr, Inhabited

namespace Json

/-- The value stored under `key` in an entry list: the first entry with that key. -/
def lookup (key : String) : List (String × Json) → Option Json
  | [] => none
  | (k, v) :: rest => if k = key then some v else lookup key rest

/-- The value stored under `key` when this is an object. -/
def field? (value : Json) (key : String) : Option Json :=
  match value with
  | .object entries => lookup key entries
  | _ => none

/-- Stores `value` under `key`: an existing entry keeps its place and takes the new value,
a new key goes last. -/
def upsert (key : String) (value : Json) : List (String × Json) → List (String × Json)
  | [] => [(key, value)]
  | (k, v) :: rest => if k = key then (k, value) :: rest else (k, v) :: upsert key value rest

def string? : Json → Option String
  | .string s => some s
  | _ => none

/-- The natural number a JSON number denotes, if it is an unsigned integer. -/
def natural? : Json → Option Nat
  | .number (.natural n) => some n
  | _ => none

end Json

end NodeSchema
