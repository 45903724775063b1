import CueScript.Decimal.Digits

/-!
# CueScript.Decimal.Shortest — the fewest digits that read back

1. **Rounding interval**: the reals that round to a binary64 number m · 2^q lie between the middles
   to its two neighbours; the ends belong to the interval when m is even.
2. **Shortest decimal**: on the coarsest decimal grid with a point in that interval, the point
   nearest to the number. Of two points at the same distance the larger one is taken.
3. **Layout**: all digits are written out; there is no exponent, and no point behind an integer.
-/

namespace CueScript.Decimal

/-! ## Rounding interval -/

/-- A positive binary64 number m · 2^q. `narrowBelow` says that the neighbour below is only half as
far away as the one above. -/
structure Dyadic where
  mantissa : Nat
  exponent : Int
  narrowBelow : Bool
deriving Repr, DecidableEq

/-- The size of the finite number with the given bits, without its sign. -/
def Dyadic.ofBits (bits : UInt64) : Dyadic :=
  let biased := (bits >>> 52).toNat % 2048
  let fraction := bits.toNat % Nat.pow 2 52
  if biased = 0 then ⟨fraction, -1074, false⟩
  else ⟨Nat.pow 2 52 + fraction, (biased : Int) - 1075, decide (fraction = 0 ∧ 1 < biased)⟩

/-- A multiple of a power of two against a multiple of a power of ten, both as natural numbers over
a common denominator. -/
def compareScaled (a : Nat) (q : Int) (c : Nat) (p : Int) : Ordering :=
  compare (a * Nat.pow 2 q.toNat * Nat.pow 10 (-p).toNat)
    (c * Nat.pow 10 p.toNat * Nat.pow 2 (-q).toNat)

/-- The quotient of a · 2^q and 10^p, rounded down. -/
def floorScaled (a : Nat) (q p : Int) : Nat :=
  a * Nat.pow 2 q.toNat * Nat.pow 10 (-p).toNat
    / (Nat.pow 10 p.toNat * Nat.pow 2 (-q).toNat)

/-- Whether c · 10^p rounds to the number. Quarters of the last binary place are counted, so that
both ends of the interval are whole. -/
def Dyadic.accepts (x : Dyadic) (c : Nat) (p : Int) : Bool :=
  let low := compareScaled (4 * x.mantissa - (if x.narrowBelow then 1 else 2)) (x.exponent - 2) c p
  let high := compareScaled (4 * x.mantissa + 2) (x.exponent - 2) c p
  let even := x.mantissa % 2 = 0
  (low = .lt || (low = .eq && even)) && (high = .gt || (high = .eq && even))

/-! ## Shortest decimal -/

/-- A number c · 10^p. -/
structure Scaled where
  coefficient : Nat
  power : Int
deriving Repr, DecidableEq

/-- The point nearest to the number on the grid of 10^p among those that round to it. -/
def Dyadic.onGrid? (x : Dyadic) (p : Int) : Option Scaled :=
  let c := floorScaled x.mantissa x.exponent p
  match x.accepts c p && 0 < c, x.accepts (c + 1) p with
  | true, true =>
    -- the middle between the two points, on the grid of half the distance
    if compareScaled (2 * x.mantissa) x.exponent (2 * c + 1) p = .lt then some ⟨c, p⟩
    else some ⟨c + 1, p⟩
  | true, false => some ⟨c, p⟩
  | false, true => some ⟨c + 1, p⟩
  | false, false => none

/-- The point on the coarsest grid that has one. The search starts above the number and ends at the
latest on the grid on which the number itself lies. -/
def Dyadic.shortest (x : Dyadic) : Scaled :=
  let top : Int := (digitsOf (x.mantissa * Nat.pow 2 x.exponent.toNat
    / Nat.pow 2 (-x.exponent).toNat)).length
  let count := (top - min x.exponent 0).toNat + 1
  ((List.range count).findSome? fun (k : Nat) => x.onGrid? (top - k)).getD
    ⟨x.mantissa * Nat.pow 2 x.exponent.toNat, 0⟩

/-! ## Layout -/

/-- All digits of c · 10^p, with a point when there are places behind it. -/
def Scaled.layout (s : Scaled) : List Char :=
  let digits := digitsOf s.coefficient
  if 0 ≤ s.power then digits ++ List.replicate s.power.natAbs '0'
  else
    let places := s.power.natAbs
    let padded := List.replicate (places + 1 - digits.length) '0' ++ digits
    padded.take (padded.length - places) ++ '.' :: padded.drop (padded.length - places)

/-- The text of a finite binary64 number: the sign, also that of zero, and the shortest digits. -/
def textOf (x : Float) : String :=
  let bits := x.toBits
  let sign := if bits >>> 63 = 1 then ['-'] else []
  let size := Dyadic.ofBits bits
  String.ofList (sign ++ if size.mantissa = 0 then ['0'] else size.shortest.layout)

end CueScript.Decimal
