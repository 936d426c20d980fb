set_option autoImplicit false

/-! The shortest decimal that reads back as a given binary64 double. A finite double is
`m * 2 ^ q`; every real strictly between it and its neighbours' midpoints rounds to it, and
so do the midpoints themselves when `m` is even (a tie rounds to the even mantissa). For one,
two, up to seventeen significant digits the value's two neighbours on that decimal grid are
tested in exact natural arithmetic: the first grid with a neighbour inside the interval gives
the digits, the nearer neighbour when both are inside, and an exact tie goes as the caller says.
Trailing zeros are then dropped. -/

namespace NodeSchema

/-- A decimal number `digits * 10 ^ exponent`. -/
structure Decimal where
  digits : Nat
  exponent : Int
  deriving DecidableEq, Repr, Inhabited

namespace Decimal

/-- How a decimal exactly halfway between two candidates is chosen. -/
inductive TieBreak where
  /-- The candidate whose last digit is even. -/
  | toEven
  /-- The candidate of larger magnitude. -/
  | up
  deriving DecidableEq, Repr, Inhabited

/-- A positive finite double as `mantissa * 2 ^ exponent`, with whether the gap to the next
smaller double is half the gap to the next larger one (the value is a power of two above
the smallest normal exponent). -/
structure Binary where
  mantissa : Nat
  exponent : Int
  narrowBelow : Bool
  deriving DecidableEq, Repr

/-- The magnitude of a finite double given by its bits; the sign bit is ignored. -/
def Binary.ofBits (bits : UInt64) : Binary :=
  let field := ((bits >>> 52) &&& 0x7FF).toNat
  let fraction := (bits &&& 0xFFFFFFFFFFFFF).toNat
  if field = 0 then ⟨fraction, -1074, false⟩
  else ⟨fraction + Nat.pow 2 52, (field : Int) - 1075, fraction = 0 && field > 1⟩

/-- Compares `a * 10 ^ tens` with `b * 2 ^ twos` exactly. -/
def compareScaled (a : Nat) (tens : Int) (b : Nat) (twos : Int) : Ordering :=
  compare (a * Nat.pow 10 tens.toNat * Nat.pow 2 (-twos).toNat)
    (b * Nat.pow 2 twos.toNat * Nat.pow 10 (-tens).toNat)

/-- The number of decimal digits of a natural number, at least one. -/
def digitCount (n : Nat) : Nat := (Nat.toDigits 10 n).length

namespace Binary

variable (b : Binary)

/-- The least `k` with `value < 10 ^ k`, for a positive value. -/
def pointPosition : Int :=
  if 0 ≤ b.exponent then digitCount (b.mantissa * Nat.pow 2 b.exponent.toNat)
  else
    let scale := Nat.pow 2 (-b.exponent).toNat
    if scale ≤ b.mantissa then digitCount (b.mantissa / scale)
    else
      -- the least `j` with `mantissa * 10 ^ j ≥ scale` is one more than the digit count of
      -- `⌈scale / mantissa⌉ - 1`
      1 - ((digitCount ((scale + b.mantissa - 1) / b.mantissa - 1) : Nat) : Int)

/-- Whether `d * 10 ^ e` rounds to this double. The interval is scaled by four so that both
half-gaps are whole: the value is `4m`, the ends `4m - 2` (or `4m - 1`) and `4m + 2`, all in
units of `2 ^ (q - 2)`. -/
def readsBack (d : Nat) (e : Int) : Bool :=
  let low := 4 * b.mantissa - (if b.narrowBelow then 1 else 2)
  let high := 4 * b.mantissa + 2
  let twos := b.exponent - 2
  let inclusive := b.mantissa % 2 == 0
  let aboveLow := match compareScaled d e low twos with
    | .gt => true | .eq => inclusive | .lt => false
  let belowHigh := match compareScaled d e high twos with
    | .lt => true | .eq => inclusive | .gt => false
  aboveLow && belowHigh

def floorOnGrid (e : Int) : Nat :=
  (b.mantissa * Nat.pow 2 b.exponent.toNat * Nat.pow 10 (-e).toNat) /
    (Nat.pow 2 (-b.exponent).toNat * Nat.pow 10 e.toNat)

/-- The decimal on the grid `10 ^ e` that reads back and is nearest the value, if the
value's two neighbours on that grid include one that reads back. -/
def pickOnGrid (tie : TieBreak) (e : Int) : Option Decimal :=
  let c := b.floorOnGrid e
  match b.readsBack c e, b.readsBack (c + 1) e with
  | false, false => none
  | true, false => some ⟨c, e⟩
  | false, true => some ⟨c + 1, e⟩
  | true, true =>
    -- compare the value with the midpoint `(2c + 1) * 10 ^ e / 2`
    match compareScaled (2 * c + 1) e b.mantissa (b.exponent + 1) with
    | .gt => some ⟨c, e⟩
    | .lt => some ⟨c + 1, e⟩
    | .eq => match tie with
      | .up => some ⟨c + 1, e⟩
      | .toEven => some (if c % 2 = 0 then ⟨c, e⟩ else ⟨c + 1, e⟩)

end Binary

/-- Drops trailing zero digits, raising the exponent by one for each. -/
def normalize (d : Decimal) : Decimal :=
  if h : d.digits ≠ 0 ∧ d.digits % 10 = 0 then
    normalize ⟨d.digits / 10, d.exponent + 1⟩
  else d
termination_by d.digits
decreasing_by exact Nat.div_lt_self (Nat.pos_of_ne_zero h.1) (by decide)

/-- The shortest decimal that reads back as the positive double `b`, nearest it among the
shortest, with trailing zeros dropped. Seventeen significant digits always suffice; the
seventeen-digit floor is the answer should none be found. -/
def Binary.shortest (b : Binary) (tie : TieBreak) : Decimal :=
  let k := b.pointPosition
  let found := (List.range 17).findSome? fun i => b.pickOnGrid tie (k - (i + 1 : Nat))
  normalize (found.getD ⟨b.floorOnGrid (k - 17), k - 17⟩)

end Decimal

end NodeSchema
