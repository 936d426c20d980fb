
set_option autoImplicit false

/-! Pieces of generated TypeScript text: lines, block comments and string literals. A string
literal is double-quoted; the backslash, the quote, line feed, carriage return and tab take
short escapes, the line and paragraph separators and every other control character are written
`\uXXXX` with four lowercase hex digits, and everything else is written as it is. -/

namespace NodeSchema.TypeScript

def lines (parts : List String) : String := "\n".intercalate parts

/-- A block comment whose lines start with `indent`: `/**`, one starred line per text line (a
bare star for an empty one), then `**/`. -/
def indentedComment (indent : String) (text : List String) : String :=
  lines ([indent ++ "/**"] ++ text.map (fun line =>
    if line.isEmpty then indent ++ " *" else indent ++ " * " ++ line) ++ [indent ++ " **/"])

def comment (text : List String) : String := indentedComment "" text

/-- Whether a character is a control character (general category Cc). -/
def isControl (c : Char) : Bool := c.toNat < 0x20 || (0x7F ≤ c.toNat && c.toNat < 0xA0)

def hex4 (n : Nat) : List Char :=
  let digits := Nat.toDigits 16 n
  List.replicate (4 - digits.length) '0' ++ digits

/-- The escaped form of one character inside a string literal. -/
def escapeChar (c : Char) : List Char :=
  if c = '\\' then ['\\', '\\']
  else if c = '"' then ['\\', '"']
  else if c = '\n' then ['\\', 'n']
  else if c = '\r' then ['\\', 'r']
  else if c = '\t' then ['\\', 't']
  else if c.toNat = 0x2028 || c.toNat = 0x2029 || isControl c then ['\\', 'u'] ++ hex4 c.toNat
  else [c]

def stringLiteral (text : String) : String :=
  String.ofList ('"' :: text.toList.flatMap escapeChar ++ ['"'])

def lbrace : String := "\x7b"

def rbrace : String := "\x7d"

end NodeSchema.TypeScript
