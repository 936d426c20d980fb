import NodeSchema.Proofs.TypeScript.Layout
import Mathlib.Data.List.Basic

set_option autoImplicit false

/-! Generated string literals read as ECMAScript reads them (ECMA-262, String Literals). Between
the double quotes a character stands for itself unless it is the quote, which closes the
literal, the backslash, or a line feed or carriage return, which may not stand there. A
backslash starts an escape sequence: one of the single escape characters `' " \ b f n r t v`,
`0` before anything but a decimal digit, `x` and two hex digits, `u` and four hex digits, a line
terminator (a line continuation, standing for nothing), or any other character but a decimal
digit, `x` or `u`, standing for itself. Values are read as Unicode characters, so a `\u` escape
of a surrogate half, which is no character, is not read; nor is the braced `\u` form or a legacy
octal escape.

Main statement: a generated literal followed by any text is read back as the text it was
written from, and the reading ends exactly at the literal's last quote. Between its quotes
stand only characters that are neither control characters nor line or paragraph separators,
in pieces that are a character standing for itself (never a quote or a backslash) or one of
the escapes `\\`, `\"`, `\n`, `\r`, `\t` and `\u` with four hex digits. -/

namespace NodeSchema.TypeScript

/-! ### Reading a literal -/

/-- ECMAScript's line terminators: line feed, carriage return, line and paragraph separator. -/
def isLineTerminator (c : Char) : Bool :=
  c = '\n' || c = '\r' || c.toNat = 0x2028 || c.toNat = 0x2029

def hexDigitValue (c : Char) : Option Nat :=
  if '0' ≤ c ∧ c ≤ '9' then some (c.toNat - 48)
  else if 'a' ≤ c ∧ c ≤ 'f' then some (c.toNat - 87)
  else if 'A' ≤ c ∧ c ≤ 'F' then some (c.toNat - 55)
  else none

/-- The number hex digits write, the most significant first. -/
def hexValue (digits : List Char) : Option Nat :=
  digits.foldlM (fun acc c => (hexDigitValue c).map (16 * acc + ·)) 0

/-- The character with a code point, unless the code point is a surrogate half or too large. -/
def codePoint (n : Nat) : Option Char := if n.isValidChar then some (Char.ofNat n) else none

/-- The character a single escape character stands for. -/
def singleEscape (c : Char) : Option Char :=
  if c = '\x27' then some '\x27'
  else if c = '"' then some '"'
  else if c = '\\' then some '\\'
  else if c = 'b' then some '\x08'
  else if c = 'f' then some '\x0c'
  else if c = 'n' then some '\n'
  else if c = 'r' then some '\r'
  else if c = 't' then some '\t'
  else if c = 'v' then some '\x0b'
  else none

/-- Reads the escape sequence after a backslash: the characters it stands for, and the text
after it. -/
def readEscape : List Char → Option (List Char × List Char)
  | [] => none
  | e :: rest =>
    if e = 'u' then
      match rest with
      | a :: b :: c :: d :: after => ((hexValue [a, b, c, d]).bind codePoint).map fun ch => ([ch], after)
      | _ => none
    else if e = 'x' then
      match rest with
      | a :: b :: after => ((hexValue [a, b]).bind codePoint).map fun ch => ([ch], after)
      | _ => none
    else if e = '0' then
      if (rest.head?.map Char.isDigit).getD false then none else some (['\x00'], rest)
    else if e.isDigit then none
    else if e = '\r' then some ([], if rest.head? = some '\n' then rest.drop 1 else rest)
    else if isLineTerminator e then some ([], rest)
    else some ([(singleEscape e).getD e], rest)

theorem readEscape_shorter {text after value : List Char} (read : readEscape text = some (value, after)) :
    after.length < text.length := by
  unfold readEscape at read
  split at read
  · cases read
  · rename_i e rest
    suffices kept : after.length ≤ rest.length by
      simp only [List.length_cons]
      omega
    split_ifs at read
    · -- `u` and four hex digits
      split at read
      · obtain ⟨_, _, same⟩ := Option.map_eq_some_iff.1 read
        cases same
        simp only [List.length_cons]
        omega
      · cases read
    · -- `x` and two hex digits
      split at read
      · obtain ⟨_, _, same⟩ := Option.map_eq_some_iff.1 read
        cases same
        simp only [List.length_cons]
        omega
      · cases read
    all_goals
      cases read
      simp

/-- Reads the characters of a double-quoted literal after its opening quote, up to the closing
quote: the string value, and the text after the closing quote. -/
def readDoubleQuoted : List Char → Option (List Char × List Char)
  | [] => none
  | c :: rest =>
    if c = '"' then some ([], rest)
    else if c = '\\' then
      match read : readEscape rest with
      | none => none
      | some (value, after) =>
        have : after.length < rest.length + 1 := Nat.lt_succ_of_lt (readEscape_shorter read)
        (readDoubleQuoted after).map fun r => (value ++ r.1, r.2)
    else if c = '\n' ∨ c = '\r' then none
    else (readDoubleQuoted rest).map fun r => (c :: r.1, r.2)
termination_by text => text.length

/-- Reads a double-quoted string literal: its string value and the text after it. -/
def readStringLiteral : List Char → Option (List Char × List Char)
  | '"' :: rest => readDoubleQuoted rest
  | _ => none

/-! ### What the reader makes of generated text -/

theorem readDoubleQuoted_quote (rest : List Char) : readDoubleQuoted ('"' :: rest) = some ([], rest) := by
  rw [readDoubleQuoted]
  simp

theorem readDoubleQuoted_escape {rest value after : List Char} (read : readEscape rest = some (value, after)) :
    readDoubleQuoted ('\\' :: rest) = (readDoubleQuoted after).map fun r => (value ++ r.1, r.2) := by
  rw [readDoubleQuoted, if_neg (by decide : ('\\' : Char) ≠ '"'), if_pos rfl]
  split
  · rename_i none
    rw [read] at none
    cases none
  · rename_i value' after' found
    rw [read] at found
    cases found
    rfl

theorem readDoubleQuoted_letter {letter c : Char}
    (read : ∀ tail, readEscape (letter :: tail) = some ([c], tail)) (tail : List Char) :
    readDoubleQuoted ('\\' :: letter :: tail) = (readDoubleQuoted tail).map fun r => (c :: r.1, r.2) :=
  readDoubleQuoted_escape (read tail)

theorem readDoubleQuoted_plain {c : Char} (notQuote : c ≠ '"') (notBackslash : c ≠ '\\')
    (notFeed : c ≠ '\n') (notReturn : c ≠ '\r') (rest : List Char) :
    readDoubleQuoted (c :: rest) = (readDoubleQuoted rest).map fun r => (c :: r.1, r.2) := by
  rw [readDoubleQuoted]
  simp [notQuote, notBackslash, notFeed, notReturn]

theorem hexDigitValue_digitChar : ∀ d, d < 16 → hexDigitValue (Nat.digitChar d) = some (hexVal (Nat.digitChar d)) := by
  decide

theorem hexValue_eq_readHex {digits : List Char} (lower : ∀ c ∈ digits, hexDigitValue c = some (hexVal c)) :
    hexValue digits = some (readHex digits) := by
  unfold hexValue readHex
  suffices reads : ∀ acc, digits.foldlM (fun acc c => (hexDigitValue c).map (16 * acc + ·)) acc =
      some (digits.foldl (fun acc c => 16 * acc + hexVal c) acc) from reads 0
  induction digits with
  | nil => exact fun _ => rfl
  | cons c rest ih =>
    intro acc
    rw [List.foldlM_cons, List.foldl_cons, lower c List.mem_cons_self]
    exact ih (fun d listed => lower d (List.mem_cons_of_mem _ listed)) _

theorem hexValue_hex4 {n : Nat} : hexValue (hex4 n) = some n := by
  rw [hexValue_eq_readHex (forall_mem_hex4 _ hexDigitValue_digitChar n), readHex_hex4]

theorem codePoint_toNat (c : Char) : codePoint c.toNat = some c := by
  rw [codePoint, if_pos (show c.toNat.isValidChar from c.valid), Char.ofNat_toNat]

theorem readDoubleQuoted_escapeChar (c : Char) (tail : List Char) :
    readDoubleQuoted (escapeChar c ++ tail) = (readDoubleQuoted tail).map fun r => (c :: r.1, r.2) := by
  unfold escapeChar
  split_ifs with backslash quote newline carriage tab coded
  · subst backslash
    exact readDoubleQuoted_letter (fun _ => rfl) tail
  · subst quote
    exact readDoubleQuoted_letter (fun _ => rfl) tail
  · subst newline
    exact readDoubleQuoted_letter (fun _ => rfl) tail
  · subst carriage
    exact readDoubleQuoted_letter (fun _ => rfl) tail
  · subst tab
    exact readDoubleQuoted_letter (fun _ => rfl) tail
  · -- a character without a short escape is written as `\u` and its code in four hex digits
    obtain ⟨a, b, d, e, spelled⟩ := List.length_eq_four.1 (length_hex4 (toNat_lt_of_hexEscaped coded))
    have read : readEscape ('u' :: (hex4 c.toNat ++ tail)) = some ([c], tail) := by
      have digits : hexValue [a, b, d, e] = some c.toNat := by
        rw [← spelled]
        exact hexValue_hex4
      rw [spelled]
      simp [readEscape, digits, codePoint_toNat]
    simp only [List.cons_append, List.nil_append]
    exact readDoubleQuoted_escape read
  · exact readDoubleQuoted_plain quote backslash newline carriage tail

theorem readDoubleQuoted_flatMap_escapeChar (rest : List Char) :
    ∀ text : List Char, readDoubleQuoted (text.flatMap escapeChar ++ '"' :: rest) = some (text, rest)
  | [] => readDoubleQuoted_quote rest
  | c :: more => by
    rw [List.flatMap_cons, List.append_assoc, readDoubleQuoted_escapeChar,
      readDoubleQuoted_flatMap_escapeChar rest more]
    rfl

/-! ### The text between the quotes -/

/-- The pieces a generated literal is written in between its quotes: a character standing for
itself, never a quote or a backslash; a backslash and a short escape letter; or `\u` and four
hex digits. -/
inductive LiteralPiece : List Char → Prop
  | plain {c : Char} : c ≠ '"' → c ≠ '\\' → LiteralPiece [c]
  | short {e : Char} : e ∈ ['\\', '"', 'n', 'r', 't'] → LiteralPiece ['\\', e]
  | unicode {digits : List Char} : digits.length = 4 → (∀ d ∈ digits, (hexDigitValue d).isSome) →
      LiteralPiece ('\\' :: 'u' :: digits)

theorem literalPiece_escapeChar (c : Char) : LiteralPiece (escapeChar c) := by
  unfold escapeChar
  split_ifs with backslash quote newline carriage tab coded
  · exact .short (by decide)
  · exact .short (by decide)
  · exact .short (by decide)
  · exact .short (by decide)
  · exact .short (by decide)
  · exact .unicode (length_hex4 (toNat_lt_of_hexEscaped coded))
      (forall_mem_hex4 _ (fun d below => by rw [hexDigitValue_digitChar d below]; rfl) _)
  · exact .plain quote backslash

theorem not_lineTerminator_of_safeChar {c : Char} (safe : safeChar c = true) :
    isControl c = false ∧ isLineTerminator c = false := by
  simp only [safeChar, Bool.and_eq_true, Bool.not_eq_true', bne_iff_ne, ne_eq] at safe
  obtain ⟨⟨notControl, notLine⟩, notParagraph⟩ := safe
  refine ⟨notControl, ?_⟩
  have notFeed : c ≠ '\n' := by
    rintro rfl
    cases notControl
  have notReturn : c ≠ '\r' := by
    rintro rfl
    cases notControl
  simp [isLineTerminator, notFeed, notReturn, notLine, notParagraph]

/-- A generated string literal, followed by any text, is read by ECMAScript as exactly the text
it was written from, and the reading ends at its last quote. Between its quotes it is written in
pieces that are a character other than a quote or a backslash, or an escape, and no character
there is a control character or a line terminator. Different texts give different literals. -/
theorem stringLiteral_reads_back (text : String) :
    (∀ rest, readStringLiteral ((stringLiteral text).toList ++ rest) = some (text.toList, rest)) ∧
    (∃ pieces : List (List Char), (stringLiteral text).toList = '"' :: pieces.flatten ++ ['"'] ∧
      ∀ p ∈ pieces, LiteralPiece p ∧ ∀ c ∈ p, isControl c = false ∧ isLineTerminator c = false) ∧
    Function.Injective stringLiteral := by
  have spelled : (stringLiteral text).toList = '"' :: text.toList.flatMap escapeChar ++ ['"'] := by
    rw [stringLiteral, String.toList_ofList]
  refine ⟨fun rest => ?_, ⟨text.toList.map escapeChar, spelled, fun p listed => ?_⟩, stringLiteral_injective⟩
  · rw [spelled]
    simp only [List.cons_append, List.append_assoc, List.nil_append]
    rw [readStringLiteral, readDoubleQuoted_flatMap_escapeChar]
  · obtain ⟨c, _, rfl⟩ := List.mem_map.1 listed
    exact ⟨literalPiece_escapeChar c, fun d written => not_lineTerminator_of_safeChar (safeChar_of_mem_escapeChar written)⟩

end NodeSchema.TypeScript
