import NodeSchema.Json.Value
import NodeSchema.Json.Write
import NodeSchema.Text.Unprintable

set_option autoImplicit false

/-! Reading fixed-shape records out of JSON values. A record is an object with known keys or
an array holding its fields in order; an enumeration is a string naming a variant or an
object with that name as its single key and `null` as its value. The first misfit found is
reported with the path of the value at fault and a message in a fixed wording: the kind of
value found (`null`, ``boolean `true` ``, ``integer `3` ``, ``floating point `1.5` ``,
`string "x"`, `sequence`, `map`) against what was expected. A double is written as in JSON
text. -/

/-! ### Quoted texts

Texts in double quotes as diagnostics show them. The quote and the backslash are escaped, tab,
carriage return, line feed and NUL take short escapes, and a character that does not print on
its own (see `Text.Unprintable`) is written `\u{h}` with its code point in lowercase hex
without leading zeros. Every other character is written as it is. -/

namespace NodeSchema.Text

/-- The lowercase hex digits of a number, without leading zeros. -/
def hexDigits (n : Nat) : List Char := Nat.toDigits 16 n

def quoteChar (c : Char) : List Char :=
  if c = '"' then ['\\', '"']
  else if c = '\\' then ['\\', '\\']
  else if c = '\t' then ['\\', 't']
  else if c = '\r' then ['\\', 'r']
  else if c = '\n' then ['\\', 'n']
  else if c = '\x00' then ['\\', '0']
  else if isUnprintable c then ['\\', 'u', '\x7b'] ++ hexDigits c.toNat ++ ['\x7d']
  else [c]

def quoted (s : String) : String := String.ofList ('"' :: s.toList.flatMap quoteChar ++ ['"'])

end NodeSchema.Text

namespace NodeSchema.Json

/-- The class of a value as a misfit names it. -/
inductive Found where
  | null
  | bool (value : Bool)
  | unsigned (value : Nat)
  | signed (value : Int)
  | float (bits : UInt64)
  | string (value : String)
  | sequence
  | map
  deriving DecidableEq, Repr

def found : Json → Found
  | .null => .null
  | .bool b => .bool b
  | .number (.natural n) => .unsigned n
  | .number (.negative n) => .signed n
  | .number (.double bits) => .float bits
  | .string s => .string s
  | .array _ => .sequence
  | .object _ => .map

def ticked (s : String) : String := "`" ++ s ++ "`"

def Found.describe : Found → String
  | .null => "null"
  | .bool b => "boolean " ++ ticked (if b then "true" else "false")
  | .unsigned n => "integer " ++ ticked (toString n)
  | .signed n => "integer " ++ ticked (toString n)
  | .float bits => "floating point " ++ ticked (numberNotation.render bits)
  | .string s => "string " ++ Text.quoted s
  | .sequence => "sequence"
  | .map => "map"

/-- A list of accepted names: `` `a` ``, `` `a` or `b` ``, `` one of `a`, `b`, `c` ``. -/
def oneOf : List String → String
  | [a] => ticked a
  | [a, b] => ticked a ++ " or " ++ ticked b
  | names => "one of " ++ ", ".intercalate (names.map ticked)

/-- Why a value does not have the expected shape. -/
inductive Misfit where
  /-- A value of the wrong class. -/
  | invalidType (found : Found) (expected : String)
  /-- A value of the right class that is not acceptable. -/
  | invalidValue (found : Found) (expected : String)
  /-- An array of the wrong length. -/
  | invalidLength (length : Nat) (expected : String)
  /-- A key that the record does not have. -/
  | unknownField (name : String) (expected : List String)
  /-- A name that no variant carries. -/
  | unknownVariant (name : String) (expected : List String)
  /-- A key that the record needs and the object lacks. -/
  | missingField (name : String)
  deriving DecidableEq, Repr

def Misfit.message : Misfit → String
  | .invalidType f e => "invalid type: " ++ f.describe ++ ", expected " ++ e
  | .invalidValue f e => "invalid value: " ++ f.describe ++ ", expected " ++ e
  | .invalidLength n e => "invalid length " ++ toString n ++ ", expected " ++ e
  | .unknownField name [] => "unknown field " ++ ticked name ++ ", there are no fields"
  | .unknownField name names => "unknown field " ++ ticked name ++ ", expected " ++ oneOf names
  | .unknownVariant name [] => "unknown variant " ++ ticked name ++ ", there are no variants"
  | .unknownVariant name names => "unknown variant " ++ ticked name ++ ", expected " ++ oneOf names
  | .missingField name => "missing field " ++ ticked name

/-- One step from a value into a part of it. -/
inductive PathStep where
  | key (name : String)
  | index (position : Nat)
  deriving DecidableEq, Repr

/-- The text of a path: keys joined by dots, each index in brackets right after what precedes
it (`a[1].b`); the empty path is a single dot. -/
def renderPath (path : List PathStep) : String :=
  if path.isEmpty then "."
  else (path.foldl (fun (acc : String × Bool) step => match step with
    | .key k => (acc.1 ++ (if acc.2 then "." else "") ++ k, true)
    | .index i => (acc.1 ++ "[" ++ toString i ++ "]", true)) ("", false)).1

/-- A path below a prefix: the prefix alone when the path's text is a single dot, the text
glued on when it starts with a bracket, after a dot otherwise (`options`, `externs[1].symbol`,
`options.optional`). -/
def pathUnder (pre : String) (path : List PathStep) : String :=
  let text := renderPath path
  if text = "." then pre
  else if text.startsWith "[" then pre ++ text
  else pre ++ "." ++ text

/-- A misfit and the path of the value at fault, from the value being read. -/
structure ShapeError where
  path : List PathStep
  misfit : Misfit
  deriving DecidableEq, Repr

abbrev Shaped := Except ShapeError

namespace Shape

def fail {α : Type} (path : List PathStep) (misfit : Misfit) : Shaped α := .error ⟨path, misfit⟩

def string (path : List PathStep) : Json → Shaped String
  | .string s => pure s
  | v => fail path (.invalidType (found v) "a string")

/-- Reads a variant named by a string, or by the single key of an object whose value is
`null`. `words` lists every accepted name with its variant, in the order messages list them. -/
def variant {α : Type} (path : List PathStep) (words : List (String × α)) : Json → Shaped α
  | .string s =>
    match words.lookup s with
    | some a => pure a
    | none => fail path (.unknownVariant s (words.map Prod.fst))
  | .object [(s, value)] =>
    match words.lookup s with
    | none => fail path (.unknownVariant s (words.map Prod.fst))
    | some a =>
      match value with
      | .null => pure a
      | other => fail (path ++ [.key s]) (.invalidType (found other) "unit")
  | .object _ => fail path (.invalidValue .map "map with a single key")
  | v => fail path (.invalidType (found v) "string or map")

end Shape

end NodeSchema.Json
