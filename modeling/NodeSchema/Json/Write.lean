import NodeSchema.Json.Value
import NodeSchema.Decimal.Notation

set_option autoImplicit false

/-! Compact JSON text: no blanks, object entries in their stored order. In a string the quote
and the backslash are escaped, five control characters take their short escapes and every
other one below U+0020 is written `\u00xx` in lowercase hex; everything else, U+007F and
non-ASCII included, is written as it is. A double is written with the fewest digits that read
back, positionally when its point falls after the fifth place behind it and no further than
the sixteenth digit, otherwise in exponent notation with a signed exponent. -/

namespace NodeSchema

namespace Json

/-- The layout of a double in JSON text: `1000.0`, `0.0001`, `1e-7`, `1.5e+300`, `-0.0`. -/
def numberNotation : Decimal.Notation where
  lower := some (-5)
  upper := some 16
  plusSign := true
  integerPoint := true
  tie := .toEven

/-- The two lowercase hex digits of a number below 256. -/
def hexByte (n : Nat) : List Char :=
  let digit (d : Nat) : Char := if d < 10 then Char.ofNat (48 + d) else Char.ofNat (87 + d)
  [digit (n / 16 % 16), digit (n % 16)]

/-- The escaped form of one character inside a JSON string. -/
def escapeChar (c : Char) : List Char :=
  if c = '"' then ['\\', '"']
  else if c = '\\' then ['\\', '\\']
  else if c = '\n' then ['\\', 'n']
  else if c = '\t' then ['\\', 't']
  else if c = '\r' then ['\\', 'r']
  else if c = '\x08' then ['\\', 'b']
  else if c = '\x0c' then ['\\', 'f']
  else if c.toNat < 0x20 then ['\\', 'u', '0', '0'] ++ hexByte c.toNat
  else [c]

def quote (s : String) : String :=
  String.ofList ('"' :: s.toList.flatMap escapeChar ++ ['"'])

end Json

def JsonNumber.render : JsonNumber → String
  | .natural n => toString n
  | .negative n => toString n
  | .double bits => Json.numberNotation.render bits

namespace Json

mutual

def render : Json → String
  | .null => "null"
  | .bool b => if b then "true" else "false"
  | .number n => n.render
  | .string s => quote s
  | .array items => "[" ++ renderItems items ++ "]"
  | .object entries => "\x7b" ++ renderEntries entries ++ "\x7d"

def renderItems : List Json → String
  | [] => ""
  | [v] => render v
  | v :: rest => render v ++ "," ++ renderItems rest

def renderEntries : List (String × Json) → String
  | [] => ""
  | [(k, v)] => quote k ++ ":" ++ render v
  | (k, v) :: rest => quote k ++ ":" ++ render v ++ "," ++ renderEntries rest

end

end Json

end NodeSchema
