import NodeSchema.TypeScript.Text
import Mathlib.Tactic.SplitIfs

set_option autoImplicit false

/-! String literals read back. Escaped text is decoded one character at a time: a backslash
followed by a short escape letter, or by `u` and four hex digits, stands for one character, and
any other character stands for itself. Decoding the escape of a character gives the character
back and leaves the text after it untouched, so escaping is injective, and so is the writing of
string literals: different tags are written as different case labels. -/

namespace NodeSchema.TypeScript

def hexVal (c : Char) : Nat := if c.toNat < 0x3A then c.toNat - 0x30 else c.toNat - 0x57

/-- The number hex digits write, the most significant first. -/
def readHex (digits : List Char) : Nat := digits.foldl (fun acc c => 16 * acc + hexVal c) 0

def shortEscape (letter : Char) : Option Char :=
  if letter = '\\' then some '\\'
  else if letter = '"' then some '"'
  else if letter = 'n' then some '\n'
  else if letter = 'r' then some '\r'
  else if letter = 't' then some '\t'
  else none

/-- Reads back the first character of escaped text, with the text after it. -/
def unescapeHead : List Char → Option (Char × List Char)
  | [] => none
  | c :: rest =>
    if c = '\\' then
      match rest with
      | [] => none
      | letter :: after =>
        if letter = 'u' then some (Char.ofNat (readHex (after.take 4)), after.drop 4)
        else (shortEscape letter).map fun decoded => (decoded, after)
    else some (c, rest)

/-! ### Hex digits -/

theorem hexVal_digitChar : ∀ d, d < 16 → hexVal (Nat.digitChar d) = d := by decide

theorem readHex_append (digits : List Char) (c : Char) :
    readHex (digits ++ [c]) = 16 * readHex digits + hexVal c := by
  simp [readHex, List.foldl_append]

theorem readHex_zeros_append (k : Nat) (digits : List Char) :
    readHex (List.replicate k '0' ++ digits) = readHex digits := by
  have zeros : (List.replicate k '0').foldl (fun acc c => 16 * acc + hexVal c) 0 = 0 := by
    induction k with
    | zero => rfl
    | succ k ih =>
      rw [List.replicate_succ, List.foldl_cons]
      exact ih
  simp only [readHex, List.foldl_append, zeros]

theorem readHex_toDigits (n : Nat) : readHex (Nat.toDigits 16 n) = n := by
  induction n using Nat.strongRecOn with
  | _ n ih =>
  rw [Nat.toDigits_eq_if (by decide)]
  split
  · rename_i oneDigit
    simp [readHex, hexVal_digitChar n oneDigit]
  · rename_i moreDigits
    rw [readHex_append, ih (n / 16) (by omega), hexVal_digitChar _ (Nat.mod_lt _ (by decide))]
    omega

theorem forall_mem_toDigits (P : Char → Prop) (digit : ∀ d, d < 16 → P (Nat.digitChar d)) (n : Nat) :
    ∀ c ∈ Nat.toDigits 16 n, P c := by
  induction n using Nat.strongRecOn with
  | _ n ih =>
  intro c listed
  rw [Nat.toDigits_eq_if (by decide)] at listed
  split at listed
  · rename_i oneDigit
    rw [List.mem_singleton.1 listed]
    exact digit n oneDigit
  · rcases List.mem_append.1 listed with higher | last
    · exact ih (n / 16) (by omega) c higher
    · rw [List.mem_singleton.1 last]
      exact digit _ (Nat.mod_lt _ (by decide))

theorem forall_mem_hex4 (P : Char → Prop) (digit : ∀ d, d < 16 → P (Nat.digitChar d)) (n : Nat) :
    ∀ c ∈ hex4 n, P c := by
  intro c listed
  rcases List.mem_append.1 listed with zero | written
  · rw [List.eq_of_mem_replicate zero]
    exact digit 0 (by decide)
  · exact forall_mem_toDigits P digit n c written

theorem length_hex4 {n : Nat} (small : n < 0x10000) : (hex4 n).length = 4 := by
  have bounded : (Nat.toDigits 16 n).length ≤ 4 :=
    (Nat.length_toDigits_le_iff (by decide) (by decide)).2 small
  simp only [hex4, List.length_append, List.length_replicate]
  omega

theorem readHex_hex4 (n : Nat) : readHex (hex4 n) = n := by
  simp only [hex4]
  rw [readHex_zeros_append, readHex_toDigits]

/-! ### Escapes -/

theorem toNat_lt_of_hexEscaped {c : Char}
    (coded : (c.toNat = 0x2028 || c.toNat = 0x2029 || isControl c) = true) : c.toNat < 0x10000 := by
  simp only [isControl, Bool.or_eq_true, decide_eq_true_eq, Bool.and_eq_true] at coded
  omega

theorem unescapeHead_escapeChar (c : Char) (rest : List Char) :
    unescapeHead (escapeChar c ++ rest) = some (c, rest) := by
  unfold escapeChar
  split_ifs with backslash quote newline carriage tab coded
  · subst backslash
    rfl
  · subst quote
    rfl
  · subst newline
    rfl
  · subst carriage
    rfl
  · subst tab
    rfl
  · -- a character without a short escape is written as `\u` and four hex digits
    have digits := length_hex4 (toNat_lt_of_hexEscaped coded)
    simp [unescapeHead, List.take_left' digits, List.drop_left' digits, readHex_hex4]
  · simp [unescapeHead, backslash]

theorem escapeChar_append_inj {a b : Char} {rest rest' : List Char}
    (same : escapeChar a ++ rest = escapeChar b ++ rest') : a = b ∧ rest = rest' := by
  have decoded := congrArg unescapeHead same
  rw [unescapeHead_escapeChar, unescapeHead_escapeChar] at decoded
  simpa using decoded

theorem escapeChar_ne_nil (c : Char) : escapeChar c ≠ [] := by
  unfold escapeChar
  split_ifs <;> simp

theorem flatMap_escapeChar_inj :
    ∀ {xs ys : List Char}, xs.flatMap escapeChar = ys.flatMap escapeChar → xs = ys
  | [], [], _ => rfl
  | [], y :: ys, same => by simp [escapeChar_ne_nil] at same
  | x :: xs, [], same => by simp [escapeChar_ne_nil] at same
  | x :: xs, y :: ys, same => by
    simp only [List.flatMap_cons] at same
    obtain ⟨rfl, rest⟩ := escapeChar_append_inj same
    rw [flatMap_escapeChar_inj rest]

theorem stringLiteral_injective : Function.Injective stringLiteral := by
  intro a b same
  have chars := congrArg String.toList same
  simp only [stringLiteral, String.toList_ofList] at chars
  have escaped := (List.cons.inj (List.append_cancel_right chars)).2
  exact String.toList_inj.1 (flatMap_escapeChar_inj escaped)

end NodeSchema.TypeScript
