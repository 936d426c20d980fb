import NodeSchema.Decimal.Shortest

set_option autoImplicit false

/-! The text of a double as a sign, the shortest digits and a layout. A layout decides when
the digits are written with a decimal point in place and when in exponent notation, whether
a positive exponent carries a plus sign, whether a whole number keeps a `.0`, and which way
an exact tie between two shortest candidates goes. -/

namespace NodeSchema.Decimal

/-- Where a double's text places its digits. With the value written `0.D * 10 ^ p` for its
digits `D`, positional notation is used when `lower < p ≤ upper` (a missing bound is no
bound); otherwise one digit, a point, the rest and an exponent. -/
structure Notation where
  lower : Option Int
  upper : Option Int
  /-- Whether a non-negative exponent is written with a plus sign. -/
  plusSign : Bool
  /-- Whether a whole number is written with a trailing `.0`. -/
  integerPoint : Bool
  /-- Which of two equally near shortest candidates is written. -/
  tie : TieBreak

def zeros (n : Nat) : String := String.ofList (List.replicate n '0')

namespace Notation

variable (layout : Notation)

/-- Whether point position `p` is written positionally. -/
def positional (p : Int) : Bool :=
  (match layout.lower with | some l => decide (l < p) | none => true) &&
    (match layout.upper with | some u => decide (p ≤ u) | none => true)

def digitsText (d : Decimal) : String :=
  let text := toString d.digits
  let count := text.length
  let point : Int := count + d.exponent
  if layout.positional point then
    if 0 ≤ d.exponent then
      text ++ zeros d.exponent.toNat ++ (if layout.integerPoint then ".0" else "")
    else if 0 < point then
      String.ofList (text.toList.take point.toNat) ++ "." ++
        String.ofList (text.toList.drop point.toNat)
    else "0." ++ zeros (-point).toNat ++ text
  else
    let power := point - 1
    let mantissa := match text.toList with
      | first :: rest@(_ :: _) => String.ofList [first] ++ "." ++ String.ofList rest
      | _ => text
    let sign := if power < 0 then "-" else if layout.plusSign then "+" else ""
    mantissa ++ "e" ++ sign ++ toString power.natAbs

def render (bits : UInt64) : String :=
  let sign := if bits >>> 63 == 1 then "-" else ""
  let b := Binary.ofBits bits
  if b.mantissa = 0 then sign ++ "0" ++ (if layout.integerPoint then ".0" else "")
  else sign ++ layout.digitsText (b.shortest layout.tie)

end Notation

end NodeSchema.Decimal
