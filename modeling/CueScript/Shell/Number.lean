import CueScript.Decimal.Rounded
import CueScript.Shell.Arithmetic

/-!
# CueScript.Shell.Number — numbers in the arguments of `printf`

1. **Integers** are read within bounds; a quote in front of a character stands for its code.
2. **Reals** are decimal or hexadecimal numbers, infinity, or no number at all; they are rounded to a
   binary format.
3. What is wrong with an argument is given beside its value.
-/

namespace CueScript.Shell

/-- What is wrong with an argument that has to be a number. -/
inductive NumberFault where
  | notNumeric
  | notWhole
  | outOfRange
  /-- Characters follow the one behind a quote. -/
  | moreCharacters (s : Text)
deriving Repr, DecidableEq

/-- The code of the character behind a quote, and what follows it. -/
def quotedCode? : Text → Option (Nat × Text)
  | ['"'] | ['\''] => some (0, [])
  | '"' :: c :: rest | '\'' :: c :: rest => some (c.toNat, rest)
  | _ => none

/-! ## Integers -/

/-- The integer that an argument denotes, within bounds. What cannot be read counts as zero. -/
def argumentInteger (low high : Int) (s : Text) : Int × Option NumberFault :=
  match quotedCode? s with
  | some (n, []) => (n, none)
  | some (n, rest) => (n, some (.moreCharacters rest))
  | none =>
    match integerPrefix? s with
    | none => (0, some .notNumeric)
    | some (i, rest) =>
      (max low (min i high),
        if !rest.isEmpty then some .notWhole
        else if i < low ∨ high < i then some .outOfRange else none)

/-- The integer that the argument of an unsigned conversion denotes: large numbers are cut off at
both ends alike. -/
def argumentUnsigned (s : Text) : Int × Option NumberFault :=
  let (i, fault) := argumentInteger (-Int.pow 2 64) (Int.pow 2 64) s
  if i.natAbs < Nat.pow 2 64 then (i, fault)
  else (Nat.pow 2 64 - 1, some (fault.getD .outOfRange))

/-! ## Reals -/

/-- A number of a binary format, or what stands for it. -/
inductive Real where
  | finite (x : Decimal.Dyadic)
  | infinite
  | undefined
deriving Repr, DecidableEq

structure Signed where
  negative : Bool
  size : Real
deriving Repr, DecidableEq

/-- Digits with a point in them: all digits as a number, how many stand behind the point, and what
follows. -/
def pointedPrefix? (base : Nat) (s : Text) : Option (Nat × Nat × Text) :=
  let whole := s.takeWhile (isDigitOf base)
  let (places, rest) := match s.dropWhile (isDigitOf base) with
    | '.' :: rest => (rest.takeWhile (isDigitOf base), rest.dropWhile (isDigitOf base))
    | rest => ([], rest)
  let digits := whole ++ places
  if digits.isEmpty then none else some (numberOf base digits, places.length, rest)

/-- An exponent behind a given letter, and what follows it; zero when there is none. -/
def exponentPrefix (letter : Char) (s : Text) : Int × Text :=
  match s with
  | c :: rest =>
    if c.toLower ≠ letter then (0, s)
    else
      match rest with
      | '-' :: rest => ((digitsPrefix? 10 rest).map fun p => (-(p.1 : Int), p.2)).getD (0, s)
      | '+' :: rest => ((digitsPrefix? 10 rest).map fun p => ((p.1 : Int), p.2)).getD (0, s)
      | _ => ((digitsPrefix? 10 rest).map fun p => ((p.1 : Int), p.2)).getD (0, s)
  | [] => (0, s)

/-- The number of a format nearest to a multiple of a power, and whether it is out of range. Powers
beyond all numbers of any format are not computed. -/
def nearestReal (f : Decimal.BinaryFormat) (base n : Nat) (e : Int) : Real × Bool :=
  let size : Int := (Nat.toDigits base n).length + e
  let given (num den : Nat) : Real × Bool :=
    let r := f.nearest num den
    ((r.value.map Real.finite).getD .infinite, r.outOfRange)
  if n = 0 then given 0 1
  else if 20000 < size then (.infinite, true)
  else if size < -20000 then (.finite ⟨0, f.least, false⟩, true)
  else given (n * Nat.pow base e.toNat) (Nat.pow base (-e).toNat)

/-- Cuts a word off the front of a text, small or in capitals. -/
def cutWord? (word : String) (s : Text) : Option Text :=
  if (s.take word.length).map Char.toLower = word.toList then some (s.drop word.length) else none

/-- The name of no number, with letters and digits in parentheses behind it, off the front of a
text. -/
def cutUndefined? (s : Text) : Option Text :=
  (cutWord? "nan" s).map fun rest =>
    match rest with
    | '(' :: inner =>
      match inner.dropWhile isNameChar with
      | ')' :: after => after
      | _ => rest
    | _ => rest

/-- The real number that a text without sign starts with, whether it is out of range, and what
follows it. -/
def realPrefix? (f : Decimal.BinaryFormat) (s : Text) : Option (Real × Bool × Text) :=
  let hexadecimal : Option (Real × Bool × Text) :=
    match s with
    | '0' :: x :: rest =>
      if x.toLower ≠ 'x' then none
      else (pointedPrefix? 16 rest).map fun (n, places, rest) =>
        let (e, rest) := exponentPrefix 'p' rest
        let (r, out) := nearestReal f 2 n (e - 4 * places)
        (r, out, rest)
    | _ => none
  let decimal : Option (Real × Bool × Text) :=
    (pointedPrefix? 10 s).map fun (n, places, rest) =>
      let (e, rest) := exponentPrefix 'e' rest
      let (r, out) := nearestReal f 10 n (e - places)
      (r, out, rest)
  ((cutWord? "infinity" s).or (cutWord? "inf" s)).map (fun rest => (.infinite, false, rest))
    |>.or ((cutUndefined? s).map fun rest => (.undefined, false, rest))
    |>.or hexadecimal
    |>.or decimal

/-- The real number that an argument denotes. What cannot be read counts as zero. -/
def argumentReal (f : Decimal.BinaryFormat) (s : Text) : Signed × Option NumberFault :=
  let whole (n : Nat) : Signed := ⟨false, (nearestReal f 10 n 0).1⟩
  match quotedCode? s with
  | some (n, []) => (whole n, none)
  | some (n, rest) => (whole n, some (.moreCharacters rest))
  | none =>
    let (negative, body) := match s.dropWhile isSpace with
      | '-' :: rest => (true, rest)
      | '+' :: rest => (false, rest)
      | rest => (false, rest)
    match realPrefix? f body with
    | none => (whole 0, some .notNumeric)
    | some (r, out, rest) =>
      (⟨negative, r⟩,
        if !rest.isEmpty then some .notWhole else if out then some .outOfRange else none)

end CueScript.Shell
