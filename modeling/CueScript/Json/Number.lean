import CueScript.Decimal.Digits
import CueScript.Decimal.Shortest

/-!
# CueScript.Json.Number — the numbers of a JSON document

1. **Literals**: a `Number` is a literal as it is written, up to the spelling of its exponent.
2. **Reading and writing**: the whole part has no leading zero, a point and an exponent mark are
   followed by digits.
3. **Values**: a literal without point and exponent is an integer. `text?` gives the text that a
   number stands for when it is used as a value: integers of the signed and the unsigned 64-bit
   range are exact, all other literals go through the binary64 number near them.
-/

namespace CueScript.Json

/-! ## Literals -/

/-- A number literal. An empty fraction means that there is no decimal point. -/
structure Number where
  negative : Bool
  whole : Nat
  fraction : List (Fin 10)
  exponent : Option Int
deriving Repr, DecidableEq

namespace Number

def ofInt (i : Int) : Number :=
  ⟨decide (i < 0), i.natAbs, [], none⟩

/-! ## Reading and writing -/

/-- Takes one given character off the front of a text; tells whether it was there. -/
def takeChar (c : Char) : List Char → Bool × List Char
  | [] => (false, [])
  | d :: ds => if d = c then (true, ds) else (false, d :: ds)

/-- Reads the whole part: a zero, or digits that do not start with a zero. -/
def readWhole? (s : List Char) : Option (Nat × List Char) :=
  match s with
  | '0' :: rest => some (0, rest)
  | _ =>
    match Decimal.splitDigits s with
    | ([], _) => none
    | (ds, rest) => some (Decimal.valueOf ds, rest)

/-- Reads the fraction: nothing, or a point with digits behind it. -/
def readFraction? (s : List Char) : Option (List (Fin 10) × List Char) :=
  match s with
  | '.' :: rest =>
    match Decimal.splitDigits rest with
    | ([], _) => none
    | (ds, rest) => some (ds, rest)
  | _ => some ([], s)

/-- The sign in front of an exponent, true for minus, and what follows it. -/
def takeSign : List Char → Bool × List Char
  | '-' :: rest => (true, rest)
  | '+' :: rest => (false, rest)
  | s => (false, s)

/-- Reads the exponent: nothing, or `e` or `E`, an optional sign, and digits. -/
def readExponent? (s : List Char) : Option (Option Int × List Char) :=
  match s with
  | [] => some (none, s)
  | c :: rest =>
    if c = 'e' ∨ c = 'E' then
      match Decimal.splitDigits (takeSign rest).2 with
      | ([], _) => none
      | (ds, after) =>
        some (some (if (takeSign rest).1 then -(Decimal.valueOf ds : Int) else Decimal.valueOf ds),
          after)
    else some (none, s)

/-- Reads the literal that a text starts with. -/
def read? (s : List Char) : Option (Number × List Char) := do
  let (negative, s) := takeChar '-' s
  let (whole, s) ← readWhole? s
  let (fraction, s) ← readFraction? s
  let (exponent, s) ← readExponent? s
  return (⟨negative, whole, fraction, exponent⟩, s)

def write (n : Number) : List Char :=
  (if n.negative then ['-'] else []) ++ Decimal.digitsOf n.whole
    ++ (if n.fraction.isEmpty then [] else '.' :: n.fraction.map Decimal.digitChar)
    ++ (match n.exponent with
      | none => []
      | some e => 'e' :: (if e < 0 then ['-'] else []) ++ Decimal.digitsOf e.natAbs)

/-! ## Values -/

/-- The integer that a literal without point and exponent denotes. A negative zero is no integer. -/
def int? (n : Number) : Option Int :=
  if n.fraction ≠ [] ∨ n.exponent ≠ none ∨ (n.negative = true ∧ n.whole = 0) then none
  else some (if n.negative then -(n.whole : Int) else n.whole)

/-- Significands are kept below this bound. -/
def significandBound : Nat := Nat.pow 2 64

/-- Drops digits at the end of a whole number until it is below the bound; counts them. -/
def shedDigits (n : Nat) : Nat × Nat :=
  if n < significandBound then (n, 0)
  else
    let (m, dropped) := shedDigits (n / 10)
    (m, dropped + 1)
termination_by n
decreasing_by
  simp only [significandBound, Nat.pow_eq] at *
  omega

/-- Appends digits to a significand while it stays below the bound; counts them. -/
def appendDigits (n : Nat) : List (Fin 10) → Nat × Nat
  | [] => (n, 0)
  | d :: ds =>
    if 10 * n + d.val < significandBound then
      let (m, used) := appendDigits (10 * n + d.val) ds
      (m, used + 1)
    else (n, 0)

/-- The binary64 number nearest to a power of ten, for exponents up to 308. -/
def powerOfTen (e : Nat) : Float :=
  Float.ofScientific 1 false e

/-- Divides by a power of ten, by 10³⁰⁸ at a time while the exponent is larger than that. -/
def scaleDown (x : Float) (e : Nat) : Float :=
  if e ≤ 308 then x / powerOfTen e
  else if x == 0 then x
  else scaleDown (x / powerOfTen 308) (e - 308)
termination_by e

/-- Multiplies by a power of ten; `none` when the result is not finite. -/
def scaleUp? (x : Float) (e : Nat) : Option Float :=
  if e ≤ 308 then
    let y := x * powerOfTen e
    if y.isInf then none else some y
  else if x == 0 then some x
  else none

/-- The binary64 number near a literal: the significand is cut to the bound and rounded, then scaled
by a rounded power of ten. `none` when it is too large. -/
def float? (n : Number) : Option Float :=
  let (head, dropped) := shedDigits n.whole
  let (significand, used) := appendDigits head n.fraction
  let exponent : Int := dropped - used + n.exponent.getD 0
  let x := (UInt64.ofNat significand).toFloat
  let size := if 0 ≤ exponent then scaleUp? x exponent.natAbs else some (scaleDown x exponent.natAbs)
  size.map fun y => if n.negative then -y else y

/-- The text that a number stands for: an integer within 64 bits, signed or unsigned, is written
exactly, any other literal as the binary64 number near it. -/
def text? (n : Number) : Option String :=
  match n.int? with
  | some i =>
    if -Int.pow 2 63 ≤ i ∧ i < Int.pow 2 64 then
      some (String.ofList ((if i < 0 then ['-'] else []) ++ Decimal.digitsOf i.natAbs))
    else n.float?.map Decimal.textOf
  | none => n.float?.map Decimal.textOf

end Number

end CueScript.Json
