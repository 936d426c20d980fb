import NodeSchema.Json.Value

set_option autoImplicit false

/-! Reading JSON text (RFC 8259) into a `Json` value that keeps object entries in document
order. An integer literal is unsigned when it has no sign and is below `2 ^ 64`, negative
when it has a sign and its magnitude is between one and `2 ^ 63`; every other number (a
fraction, an exponent, `-0`, or an integer out of those ranges) is rounded to a double, built
from at most a 64-bit significand scaled by rounded powers of ten. A key written twice keeps
its first place and its last value. Containers nested 128 deep are refused.

A text that is not a document is refused with the first problem met, reading left to right,
and the place of that problem: a line (counted from one) and a column counted in bytes of the
UTF-8 text from the start of the line. A problem found in a character already consumed is
placed at the end of what was consumed; a problem found by looking at the next character is
placed one byte further, that is at the column of that character counted from one. -/

namespace NodeSchema.Json

/-- Why a text is not a JSON document. -/
inductive ReadProblem where
  | endInList
  | endInObject
  | endInString
  | endInValue
  | expectedColon
  | expectedCommaOrBracket
  | expectedCommaOrBrace
  | expectedWord
  | expectedValue
  | invalidEscape
  | invalidNumber
  | numberOutOfRange
  | controlCharacter
  | keyMustBeString
  | loneSurrogate
  | trailingComma
  | trailingCharacters
  | unfinishedSurrogatePair
  | tooDeep
  deriving DecidableEq, Repr

def ReadProblem.message : ReadProblem → String
  | .endInList => "EOF while parsing a list"
  | .endInObject => "EOF while parsing an object"
  | .endInString => "EOF while parsing a string"
  | .endInValue => "EOF while parsing a value"
  | .expectedColon => "expected `:`"
  | .expectedCommaOrBracket => "expected `,` or `]`"
  | .expectedCommaOrBrace => "expected `,` or `\x7d`"
  | .expectedWord => "expected ident"
  | .expectedValue => "expected value"
  | .invalidEscape => "invalid escape"
  | .invalidNumber => "invalid number"
  | .numberOutOfRange => "number out of range"
  | .controlCharacter => "control character (\\u0000-\\u001F) found while parsing a string"
  | .keyMustBeString => "key must be a string"
  | .loneSurrogate => "lone leading surrogate in hex escape"
  | .trailingComma => "trailing comma"
  | .trailingCharacters => "trailing characters"
  | .unfinishedSurrogatePair => "unexpected end of hex escape"
  | .tooDeep => "recursion limit exceeded"

/-- Where reading stopped: the problem, the input not yet consumed when it was found, and how
many bytes into that input its place lies (one when the next character is at fault). -/
structure Fault where
  problem : ReadProblem
  rest : List Char
  ahead : Nat
  deriving DecidableEq, Repr

/-- Why a text is not a JSON document, and where: line and column as described above. -/
structure ReadError where
  problem : ReadProblem
  line : Nat
  column : Nat
  deriving DecidableEq, Repr

def ReadError.message (e : ReadError) : String :=
  e.problem.message ++ " at line " ++ toString e.line ++ " column " ++ toString e.column

/-- A problem found in what was consumed before `rest`. -/
def failAfter {α : Type} (problem : ReadProblem) (rest : List Char) : Except Fault α :=
  .error ⟨problem, rest, 0⟩

/-- A problem found in the next character, the first of `rest`. -/
def failOn {α : Type} (problem : ReadProblem) (rest : List Char) : Except Fault α :=
  .error ⟨problem, rest, 1⟩

def byteLength (cs : List Char) : Nat := cs.foldr (fun c total => c.utf8Size + total) 0

@[simp]
theorem byteLength_nil : byteLength [] = 0 := rfl

@[simp]
theorem byteLength_cons (c : Char) (cs : List Char) :
    byteLength (c :: cs) = c.utf8Size + byteLength cs := rfl

theorem byteLength_append (xs ys : List Char) :
    byteLength (xs ++ ys) = byteLength xs + byteLength ys := by
  induction xs with
  | nil => simp
  | cons c cs ih => simp [ih, Nat.add_assoc]

/-- The line and column of a byte offset into a text: the line is one more than the number of
line feeds before the offset, the column the number of bytes since the last of them. -/
def lineColumn (text : List Char) (offset : Nat) : Nat × Nat :=
  let (line, start, _) := text.foldl (fun (acc : Nat × Nat × Nat) c =>
      let next := acc.2.2 + c.utf8Size
      if c = '\n' && acc.2.2 < offset then (acc.1 + 1, next, next) else (acc.1, acc.2.1, next))
    (1, 0, 0)
  (line, offset - start)

/-- Places a fault found while reading `text`: its byte offset is what was consumed plus the
bytes ahead, at most the length of the text. -/
def Fault.locate (text : List Char) (f : Fault) : ReadError :=
  let total := byteLength text
  let (line, column) := lineColumn text (min total (total - byteLength f.rest + f.ahead))
  ⟨f.problem, line, column⟩

def isSpace (c : Char) : Bool := c = ' ' || c = '\t' || c = '\n' || c = '\r'

def skipSpace (cs : List Char) : List Char := cs.dropWhile isSpace

def hexValue (c : Char) : Option Nat :=
  if c.isDigit then some (c.toNat - '0'.toNat)
  else if 'a' ≤ c && c ≤ 'f' then some (c.toNat - 'a'.toNat + 10)
  else if 'A' ≤ c && c ≤ 'F' then some (c.toNat - 'A'.toNat + 10)
  else none

/-- Four hexadecimal digits as a code unit. The next four bytes are taken together: when
they are not four digits the escape is invalid after them, and when fewer than four bytes
remain the string ends early. -/
def readUnit (cs : List Char) : Except Fault (Nat × List Char) :=
  match cs with
  | a :: b :: c :: d :: rest =>
    match hexValue a, hexValue b, hexValue c, hexValue d with
    | some a, some b, some c, some d => .ok (((a * 16 + b) * 16 + c) * 16 + d, rest)
    | _, _, _, _ => .error ⟨.invalidEscape, cs, 4⟩
  | _ =>
    if 4 ≤ byteLength cs then .error ⟨.invalidEscape, cs, 4⟩ else failAfter .endInString []

/-- The character of a \u escape. A high surrogate must be followed at once by a \u escape of
a low surrogate, and the two are joined; a low surrogate alone is refused. -/
def readUnicodeEscape (cs : List Char) : Except Fault (Char × List Char) := do
  let (unit, rest) ← readUnit cs
  if 0xDC00 ≤ unit && unit < 0xE000 then failAfter .loneSurrogate rest
  else if unit < 0xD800 || 0xDBFF < unit then pure (Char.ofNat unit, rest)
  else
    match rest with
    | [] => failAfter .endInString []
    | '\\' :: more =>
      match more with
      | [] => failAfter .endInString []
      | 'u' :: more => do
        let (low, rest) ← readUnit more
        if 0xDC00 ≤ low && low < 0xE000 then
          pure (Char.ofNat (0x10000 + (unit - 0xD800) * 0x400 + (low - 0xDC00)), rest)
        else failAfter .loneSurrogate rest
      | _ => failOn .unfinishedSurrogatePair more
    | _ => failOn .unfinishedSurrogatePair rest

/-- The characters of a string body up to its closing quote, and the text after it. -/
def readStringBody (acc : List Char) : List Char → Except Fault (String × List Char)
  | [] => failAfter .endInString []
  | '"' :: rest => .ok (String.ofList acc.reverse, rest)
  | '\\' :: rest =>
    match rest with
    | '"' :: more => readStringBody ('"' :: acc) more
    | '\\' :: more => readStringBody ('\\' :: acc) more
    | '/' :: more => readStringBody ('/' :: acc) more
    | 'b' :: more => readStringBody ('\x08' :: acc) more
    | 'f' :: more => readStringBody ('\x0c' :: acc) more
    | 'n' :: more => readStringBody ('\n' :: acc) more
    | 'r' :: more => readStringBody ('\r' :: acc) more
    | 't' :: more => readStringBody ('\t' :: acc) more
    | 'u' :: more =>
      match readUnicodeEscape more with
      | .ok (c, after) =>
        if after.length < more.length then readStringBody (c :: acc) after
        else failAfter .invalidEscape after
      | .error e => .error e
    | [] => failAfter .endInString []
    | _ => failOn .invalidEscape rest
  | c :: rest =>
    if c.toNat < 0x20 then failAfter .controlCharacter rest else readStringBody (c :: acc) rest
termination_by cs => cs.length

/-- The largest significand the reader accumulates: one below `2 ^ 64`. -/
def maxSignificand : Nat := 18446744073709551615

def clampExponent (e : Int) : Int := max (-2147483648) (min 2147483647 e)

/-- Takes digits into a significand while it stays at most `maxSignificand`: the significand,
the number of digits taken, and the rest. -/
def takeSignificand (significand taken : Nat) : List Char → Nat × Nat × List Char
  | c :: rest =>
    if c.isDigit && significand * 10 + (c.toNat - '0'.toNat) ≤ maxSignificand then
      takeSignificand (significand * 10 + (c.toNat - '0'.toNat)) (taken + 1) rest
    else (significand, taken, c :: rest)
  | [] => (significand, taken, [])

def powerOfTen (k : Nat) : Float := Float.ofScientific 1 false k

/-- Scales a double by a power of ten: one multiplication or division by the rounded power
when the exponent is at most 308 in size; otherwise a non-zero value with a positive exponent
overflows, and one with a negative exponent is divided by `10 ^ 308` first. `none` when the
result overflows. -/
def scaleByPowerOfTen (f : Float) (exponent : Int) : Nat → Option Float
  | 0 => some f
  | fuel + 1 =>
    if exponent.natAbs ≤ 308 then
      if 0 ≤ exponent then
        let g := f * powerOfTen exponent.natAbs
        if g.isInf then none else some g
      else some (f / powerOfTen exponent.natAbs)
    else if f == 0 then some f
    else if 0 ≤ exponent then none
    else scaleByPowerOfTen (f / powerOfTen 308) (exponent + 308) fuel

def signBit : UInt64 := 0x8000000000000000

def signedBits (negative : Bool) (f : Float) : UInt64 :=
  if negative then f.toBits ^^^ signBit else f.toBits

/-- The double a reader builds for `significand * 10 ^ exponent`, when the number ends before
`rest`: the significand rounded to a double, then scaled by rounded powers of ten. This is the
nearest double for short inputs and may miss it by a unit in the last place otherwise.
Negated when `negative`; out of range when it overflows. -/
def decimalNumber (negative : Bool) (significand : Nat) (exponent : Int) (rest : List Char) :
    Except Fault (JsonNumber × List Char) :=
  match scaleByPowerOfTen (UInt64.ofNat significand).toFloat exponent (exponent.natAbs / 308 + 2) with
  | none => failAfter .numberOutOfRange rest
  | some f => .ok (.double (signedBits negative f), rest)

def digitValue (c : Char) : Nat := c.toNat - '0'.toNat

/-- Reads the digits of an exponent after its first one, with the magnitude so far. A
magnitude beyond 32 bits is out of range at its last digit when the exponent is positive and
the significand is not zero, and otherwise makes the number a zero. -/
def readExponentDigits (negative : Bool) (significand : Nat) (start : Int) (positive : Bool)
    (magnitude : Nat) : List Char → Except Fault (JsonNumber × List Char)
  | c :: rest =>
    if c.isDigit then
      let magnitude := magnitude * 10 + digitValue c
      if magnitude > 2 ^ 31 - 1 then
        if significand != 0 && positive then failAfter .numberOutOfRange rest
        else .ok (.double (signedBits negative 0), rest.dropWhile Char.isDigit)
      else readExponentDigits negative significand start positive magnitude rest
    else
      decimalNumber negative significand
        (clampExponent (if positive then start + magnitude else start - magnitude)) (c :: rest)
  | [] =>
    decimalNumber negative significand
      (clampExponent (if positive then start + magnitude else start - magnitude)) []

/-- Reads an exponent after its mark, for a number with the given significand and exponent so
far: an optional sign, then at least one digit. -/
def readExponent (negative : Bool) (significand : Nat) (start : Int) (cs : List Char) :
    Except Fault (JsonNumber × List Char) :=
  let (positive, cs) := match cs with
    | '+' :: rest => (true, rest)
    | '-' :: rest => (false, rest)
    | _ => (true, cs)
  match cs with
  | [] => failAfter .endInValue []
  | c :: rest =>
    if c.isDigit then readExponentDigits negative significand start positive (digitValue c) rest
    else failOn .invalidNumber cs

/-- Finishes a number after its digits: an exponent mark starts an exponent. -/
def finishDecimal (negative : Bool) (significand : Nat) (exponent : Int) :
    List Char → Except Fault (JsonNumber × List Char)
  | c :: rest =>
    if c = 'e' || c = 'E' then readExponent negative significand exponent rest
    else decimalNumber negative significand exponent (c :: rest)
  | [] => decimalNumber negative significand exponent []

/-- Reads the digits after a decimal point. Digits that no longer fit the significand are
skipped; without any digit the number is invalid at the next character. -/
def readFraction (negative : Bool) (significand : Nat) (before : Int) (cs : List Char) :
    Except Fault (JsonNumber × List Char) :=
  let (significand, taken, rest) := takeSignificand significand 0 cs
  match rest with
  | c :: _ =>
    if c.isDigit then
      finishDecimal negative significand (before - taken) (rest.dropWhile Char.isDigit)
    else if taken = 0 then failOn .invalidNumber rest
    else finishDecimal negative significand (before - taken) rest
  | [] =>
    if taken = 0 then failOn .endInValue [] else finishDecimal negative significand (before - taken) []

/-- The number of an integer literal: unsigned without a sign, negative when its magnitude is
between one and `2 ^ 63`, and otherwise the nearest double. -/
def integerNumber (negative : Bool) (significand : Nat) : JsonNumber :=
  if !negative then .natural significand
  else if 0 < significand && significand ≤ 9223372036854775808 then .negative (-(significand : Int))
  else .double (signedBits true (UInt64.ofNat significand).toFloat)

/-- Continues a number after an integer part that fits the significand. -/
def afterInteger (negative : Bool) (significand : Nat) :
    List Char → Except Fault (JsonNumber × List Char)
  | '.' :: more => readFraction negative significand 0 more
  | c :: more =>
    if c = 'e' || c = 'E' then readExponent negative significand 0 more
    else .ok (integerNumber negative significand, c :: more)
  | [] => .ok (integerNumber negative significand, [])

/-- Reads a number after its optional minus: an integer part without leading zeros, an
optional fraction and an optional exponent. Digits beyond a 64-bit significand count only as
powers of ten. -/
def readNumber (negative : Bool) (cs : List Char) : Except Fault (JsonNumber × List Char) :=
  match cs with
  | [] => failAfter .endInValue []
  | '0' :: rest =>
    match rest with
    | c :: _ => if c.isDigit then failOn .invalidNumber rest else afterInteger negative 0 rest
    | [] => afterInteger negative 0 []
  | c :: _ =>
    if !c.isDigit then failOn .invalidNumber cs
    else
      let (significand, _, rest) := takeSignificand 0 0 cs
      match rest with
      | d :: _ =>
        if d.isDigit then
          -- the significand is full: further integer digits only scale it
          let extra := (rest.takeWhile Char.isDigit).length
          let rest := rest.dropWhile Char.isDigit
          match rest with
          | '.' :: more => readFraction negative significand extra more
          | _ => finishDecimal negative significand extra rest
        else afterInteger negative significand rest
      | [] => afterInteger negative significand []

/-- Reads the rest of a literal word after its first letter. -/
def readWord (value : Json) : List Char → List Char → Except Fault (Json × List Char)
  | [], rest => .ok (value, rest)
  | _ :: _, [] => failAfter .endInValue []
  | w :: ws, c :: rest => if c = w then readWord value ws rest else failOn .expectedWord (c :: rest)

/-- The nesting level at which containers are refused: the outermost container is level one. -/
def maxDepth : Nat := 128

mutual

/-- Reads one value after optional blanks, inside `depth` open containers. The fuel bounds the
number of nested reading steps; each step consumes input, so twice the input length
suffices. -/
def readValue : Nat → Nat → List Char → Except Fault (Json × List Char)
  | 0, _, cs => failOn .tooDeep cs
  | fuel + 1, depth, cs =>
    match skipSpace cs with
    | [] => failOn .endInValue []
    | 'n' :: rest => readWord .null ['u', 'l', 'l'] rest
    | 't' :: rest => readWord (.bool true) ['r', 'u', 'e'] rest
    | 'f' :: rest => readWord (.bool false) ['a', 'l', 's', 'e'] rest
    | '-' :: rest => do
      let (n, rest) ← readNumber true rest
      pure (.number n, rest)
    | '"' :: rest => do
      let (s, rest) ← readStringBody [] rest
      pure (.string s, rest)
    | '[' :: rest =>
      if depth + 1 ≥ maxDepth then failOn .tooDeep ('[' :: rest)
      else readItems fuel (depth + 1) true [] rest
    | '{' :: rest =>
      if depth + 1 ≥ maxDepth then failOn .tooDeep ('{' :: rest)
      else readEntries fuel (depth + 1) true [] rest
    | c :: rest =>
      if c.isDigit then do
        let (n, rest) ← readNumber false (c :: rest)
        pure (.number n, rest)
      else failOn .expectedValue (c :: rest)

/-- Reads the items of an array, the items so far in reverse, up to the closing bracket. -/
def readItems : Nat → Nat → Bool → List Json → List Char → Except Fault (Json × List Char)
  | 0, _, _, _, cs => failOn .tooDeep cs
  | fuel + 1, depth, first, acc, cs =>
    match skipSpace cs with
    | [] => failOn .endInList []
    | ']' :: more => .ok (.array acc.reverse, more)
    | c :: more =>
      if first then do
        let (item, rest) ← readValue fuel depth (c :: more)
        readItems fuel depth false (item :: acc) rest
      else if c = ',' then
        match skipSpace more with
        | [] => failOn .endInValue []
        | ']' :: rest => failOn .trailingComma (']' :: rest)
        | next => do
          let (item, rest) ← readValue fuel depth next
          readItems fuel depth false (item :: acc) rest
      else failOn .expectedCommaOrBracket (c :: more)

/-- Reads the entries of an object, the entries so far in order, up to the closing brace. -/
def readEntries : Nat → Nat → Bool → List (String × Json) → List Char →
    Except Fault (Json × List Char)
  | 0, _, _, _, cs => failOn .tooDeep cs
  | fuel + 1, depth, first, acc, cs =>
    match skipSpace cs with
    | [] => failOn .endInObject []
    | '}' :: more => .ok (.object acc, more)
    | c :: more =>
      let key : Except Fault (List Char) :=
        if c = ',' && !first then .ok (skipSpace more)
        else if first then .ok (c :: more)
        else failOn .expectedCommaOrBrace (c :: more)
      match key with
      | .error e => .error e
      | .ok [] => failOn .endInValue []
      | .ok ('}' :: rest) => failOn .trailingComma ('}' :: rest)
      | .ok ('"' :: rest) => do
        let (key, rest) ← readStringBody [] rest
        match skipSpace rest with
        | ':' :: rest =>
          let (value, rest) ← readValue fuel depth rest
          readEntries fuel depth false (upsert key value acc) rest
        | [] => failOn .endInObject []
        | other => failOn .expectedColon other
      | .ok other => failOn .keyMustBeString other

end

/-- Reads a whole text as one JSON value, with nothing but blanks after it; a fault keeps the
input left where it was found. -/
def readDocument (cs : List Char) : Except Fault Json := do
  let (value, rest) ← readValue (2 * cs.length + 2) 0 cs
  match skipSpace rest with
  | [] => pure value
  | more => failOn .trailingCharacters more

/-- Reads a whole text as one JSON value, placing a problem by line and column. -/
def read (text : String) : Except ReadError Json :=
  (readDocument text.toList).mapError (Fault.locate text.toList)

end NodeSchema.Json
