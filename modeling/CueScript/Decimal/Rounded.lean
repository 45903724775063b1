import CueScript.Decimal.Shortest

/-!
# CueScript.Decimal.Rounded — a given number of digits

1. **To decimals**: a binary number is exact; it is cut to a decimal grid by rounding to the nearest
   point, and to the even one of two points at the same distance. `fixed` counts places behind the
   point, `scientific` counts significant digits.
2. **From quotients**: the nearest number of a binary format, by the same rule.
-/

namespace CueScript.Decimal

/-! ## To decimals -/

/-- The quotient, rounded to the nearest integer, half to even. -/
def roundDiv (num den : Nat) : Nat :=
  let q := num / den
  let r := num % den
  if 2 * r < den then q
  else if den < 2 * r then q + 1
  else if q % 2 = 0 then q else q + 1

/-- The coefficient of the nearest point on the grid of 10^p. -/
def Dyadic.nearest (x : Dyadic) (p : Int) : Nat :=
  roundDiv (x.mantissa * Nat.pow 2 x.exponent.toNat * Nat.pow 10 (-p).toNat)
    (Nat.pow 10 p.toNat * Nat.pow 2 (-x.exponent).toNat)

/-- The digits of the number with so many places behind the point. -/
def Dyadic.fixed (x : Dyadic) (places : Nat) : List Char :=
  (Scaled.layout ⟨x.nearest (-(places : Int)), -(places : Int)⟩)

/-- The exponent of the leading digit of a quotient that is not zero. -/
def leadingPower (num den : Nat) : Int :=
  let e : Int := (digitsOf num).length - (digitsOf den).length
  if den * Nat.pow 10 e.toNat ≤ num * Nat.pow 10 (-e).toNat then e else e - 1

/-- The exponent of the leading digit; zero for zero. -/
def Dyadic.magnitude (x : Dyadic) : Int :=
  if x.mantissa = 0 then 0
  else leadingPower (x.mantissa * Nat.pow 2 x.exponent.toNat) (Nat.pow 2 (-x.exponent).toNat)

/-- The number with so many digits behind the leading one: the digits as a number, and the exponent
of the leading one. -/
def Dyadic.scientific (x : Dyadic) (places : Nat) : Nat × Int :=
  let e := x.magnitude
  let c := x.nearest (e - places)
  if c = Nat.pow 10 (places + 1) then (Nat.pow 10 places, e + 1) else (c, e)

/-! ## From quotients -/

/-- A binary format: the bits of a significand, the exponent of the least unit, and the exponent from
which on numbers are too large. -/
structure BinaryFormat where
  bits : Nat
  least : Int
  top : Int
deriving Repr, DecidableEq

def binary64 : BinaryFormat := ⟨53, -1074, 1024⟩

def binary80 : BinaryFormat := ⟨64, -16445, 16384⟩

/-- The number of a format that is nearest to a quotient. -/
structure Nearest where
  /-- The number; it is missing when it is too large. -/
  value : Option Dyadic
  /-- Whether the quotient is too large, or too small to be told exactly. -/
  outOfRange : Bool
deriving Repr, DecidableEq

def BinaryFormat.nearest (f : BinaryFormat) (num den : Nat) : Nearest :=
  if num = 0 then ⟨some ⟨0, f.least, false⟩, false⟩
  else
    let scaled (q : Int) : Nat × Nat := (num * Nat.pow 2 (-q).toNat, den * Nat.pow 2 q.toNat)
    let log : Int := num.log2 - den.log2
    let exact := scaled (log - 1)
    -- the exponent of the leading bit
    let log := if 2 * exact.2 ≤ exact.1 then log else log - 1
    let q := max f.least (log - (f.bits - 1 : Nat))
    let (n, d) := scaled q
    let m := roundDiv n d
    let (m, q) := if m = Nat.pow 2 f.bits then (m / 2, q + 1) else (m, q)
    if f.top < q + f.bits then ⟨none, true⟩
    else ⟨some ⟨m, q, false⟩, m < Nat.pow 2 (f.bits - 1) && n % d != 0⟩

end CueScript.Decimal
