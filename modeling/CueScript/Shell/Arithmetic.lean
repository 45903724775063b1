import CueScript.Shell.Bytes

/-!
# CueScript.Shell.Arithmetic — integer expressions

1. **Numbers** are signed 64-bit integers, written in decimal, octal or hexadecimal.
2. **Signs** are cut off the source one at a time.
3. **Evaluation** goes along with reading: what cannot be read is a fault only after what stands in
   front of it has been carried out. An operand that its operator does not need is read and not
   evaluated.
-/

namespace CueScript.Shell

/-! ## Numbers -/

/-- The signed 64-bit number that an integer is cut to. -/
def wrap (i : Int) : Int :=
  Int.bmod i (Nat.pow 2 64)

/-- The nearest number of the signed 64-bit range. -/
def clamp (i : Int) : Int :=
  max (-Int.pow 2 63) (min i (Int.pow 2 63 - 1))

/-- The run of digits of a base that a text starts with, as a number, and what follows it. -/
def digitsPrefix? (base : Nat) (s : Text) : Option (Nat × Text) :=
  match s.takeWhile (isDigitOf base) with
  | [] => none
  | ds => some (numberOf base ds, s.dropWhile (isDigitOf base))

/-- The number without sign that a text starts with, and what follows it: hexadecimal behind `0x`,
octal behind another zero, else decimal. -/
def unsignedPrefix? (s : Text) : Option (Nat × Text) :=
  let hexadecimal : Option (Nat × Text) :=
    match s with
    | '0' :: 'x' :: rest | '0' :: 'X' :: rest => digitsPrefix? 16 rest
    | _ => none
  hexadecimal.or (digitsPrefix? (if s.head? = some '0' then 8 else 10) s)

/-- Reads a sign and what it stands in front of. -/
def signedPrefix? (read : Text → Option (Nat × Text)) (s : Text) : Option (Int × Text) :=
  match s.dropWhile isSpace with
  | '-' :: rest => (read rest).map fun p => (-(p.1 : Int), p.2)
  | '+' :: rest => (read rest).map fun p => ((p.1 : Int), p.2)
  | rest => (read rest).map fun p => ((p.1 : Int), p.2)

/-- The number that a text starts with, behind blanks and a sign, and what follows it. -/
def integerPrefix? (s : Text) : Option (Int × Text) :=
  signedPrefix? unsignedPrefix? s

/-- The number that the value of a variable denotes; nothing counts as zero. -/
def integerOf? (s : Text) : Option Int :=
  match integerPrefix? s with
  | some (i, rest) => if rest.all isSpace ∧ clamp i = i then some i else none
  | none => if s.all isSpace then some 0 else none

/-- The decimal number that a text denotes, with blanks around it. -/
def decimalOf? (s : Text) : Option Int :=
  match signedPrefix? (digitsPrefix? 10) s with
  | some (i, rest) => if rest.all isSpace ∧ clamp i = i then some i else none
  | none => none

/-! ## Signs -/

inductive ArithToken where
  | number (i : Int)
  | name (x : Text)
  | sign (o : String)
  /-- A character that no part starts with. -/
  | unknown
  | finish
deriving Repr, DecidableEq

/-- The signs of expressions, each before those that it starts with. -/
def arithSigns : List String :=
  ["<<=", ">>=", "&&", "||", "==", "!=", "<=", ">=", "<<", ">>", "+=", "-=", "*=", "/=", "%=", "&=",
    "|=", "^=", "+", "-", "*", "/", "%", "<", ">", "&", "|", "^", "!", "~", "(", ")", "?", ":", "="]

def arithToken (s : Text) : ArithToken × Text :=
  let s := s.dropWhile fun c => c == ' ' || c == '\t' || c == '\n'
  match s with
  | [] => (.finish, [])
  | c :: rest =>
    match if c.isDigit then unsignedPrefix? s else none with
    | some (n, rest) => (.number (clamp n), rest)
    | none =>
      match splitName s with
      | (x@(_ :: _), rest) => (.name x, rest)
      | _ =>
        match arithSigns.findSome? fun o => (o.toList.isPrefixOf? s).map fun r => (o, r) with
        | some (o, rest) => (.sign o, rest)
        | none => (.unknown, rest)

/-- How tightly a binary operator binds: the less, the tighter. -/
def precedence? (o : String) : Option Nat :=
  [("*", 0), ("/", 0), ("%", 0), ("+", 1), ("-", 1), ("<<", 2), (">>", 2), ("<", 3), ("<=", 3),
    (">", 3), (">=", 3), ("==", 4), ("!=", 4), ("&", 5), ("^", 6), ("|", 7)].lookup o

/-- The binary operator inside an assignment operator, when it has one. -/
def assignOperator? (o : String) : Option (Option String) :=
  [("=", none), ("+=", some "+"), ("-=", some "-"), ("*=", some "*"), ("/=", some "/"),
    ("%=", some "%"), ("&=", some "&"), ("|=", some "|"), ("^=", some "^"), ("<<=", some "<<"),
    (">>=", some ">>")].lookup o

/-! ## Evaluation -/

inductive ArithFault where
  /-- Something else was expected. -/
  | expected (what : String)
  | divisionByZero
  | illegalNumber (s : Text)
  | readOnly (x : Text)
  /-- A quotient does not fit, which the machine does not survive. -/
  | overflow
deriving Repr, DecidableEq

/-- What is known about variables. -/
structure ArithScope where
  value? : Text → Option Text
  isConstant : Text → Bool

/-- An expression that is being evaluated: what is left of it, its next part, and the assignments so
far, last one first. -/
structure ArithState where
  rest : Text
  token : ArithToken
  assigned : List (Text × Text)

/-- Evaluates a part of an expression. -/
abbrev Calc := EStateM ArithFault ArithState

def advance : Calc Unit :=
  modify fun s =>
    let (token, rest) := arithToken s.rest
    { s with token, rest }

def boolNumber (b : Bool) : Int :=
  if b then 1 else 0

def binaryValue (o : String) (a b : Int) : Calc Int :=
  match o with
  | "*" => return wrap (a * b)
  | "/" | "%" =>
    if b = 0 then throw .divisionByZero
    else if b = -1 ∧ a = -Int.pow 2 63 then throw .overflow
    else return if o = "/" then a.tdiv b else a.tmod b
  | "+" => return wrap (a + b)
  | "-" => return wrap (a - b)
  | "<<" => return wrap (a * Int.pow 2 (b % 64).toNat)
  | ">>" => return a.fdiv (Int.pow 2 (b % 64).toNat)
  | "<" => return boolNumber (a < b)
  | "<=" => return boolNumber (a ≤ b)
  | ">" => return boolNumber (a > b)
  | ">=" => return boolNumber (a ≥ b)
  | "==" => return boolNumber (a = b)
  | "!=" => return boolNumber (a ≠ b)
  | "&" => return (Int64.ofInt a &&& Int64.ofInt b).toInt
  | "^" => return (Int64.ofInt a ^^^ Int64.ofInt b).toInt
  | _ => return (Int64.ofInt a ||| Int64.ofInt b).toInt

def variableNumber (scope : ArithScope) (x : Text) : Calc Int := do
  let text := (((← get).assigned.lookup x).or (scope.value? x)).getD []
  match integerOf? text with
  | some i => return i
  | none => throw (.illegalNumber text)

def assignNumber (scope : ArithScope) (x : Text) (i : Int) : Calc Int := do
  if scope.isConstant x then throw (.readOnly x)
  modify fun s => { s with assigned := (x, integerText i) :: s.assigned }
  return i

mutual
/-- An operand with its signs. `quiet` tells that the value does not count. -/
def arithPrimary (scope : ArithScope) (quiet : Bool) : Nat → Calc Int
  | 0 => throw (.expected "primary")
  | n + 1 => do
    match (← get).token with
    | .sign "(" => do
      advance
      let i ← arithAssignment scope quiet n
      if (← get).token ≠ .sign ")" then throw (.expected "')'")
      advance
      return i
    | .number i => do
      advance
      return i
    | .name x => do
      advance
      if quiet then return 0 else variableNumber scope x
    | .sign "+" => do
      advance
      arithPrimary scope quiet n
    | .sign "-" => do
      advance
      return wrap (-(← arithPrimary scope quiet n))
    | .sign "!" => do
      advance
      return boolNumber ((← arithPrimary scope quiet n) = 0)
    | .sign "~" => do
      advance
      return -(← arithPrimary scope quiet n) - 1
    | _ => throw (.expected "primary")

/-- Goes on behind an operand with operators that bind tighter than a limit. -/
def arithBinary (scope : ArithScope) (quiet : Bool) (limit : Nat) (a : Int) : Nat → Calc Int
  | 0 => throw (.expected "primary")
  | n + 1 => do
    match (← get).token with
    | .sign o =>
      match (precedence? o).filter (· < limit) with
      | some p => do
        advance
        let b ← arithPrimary scope quiet n
        let b ← arithBinary scope quiet p b n
        let a ← if quiet then pure b else binaryValue o a b
        arithBinary scope quiet limit a n
      | none => return a
    | _ => return a

def arithAnd (scope : ArithScope) (quiet : Bool) : Nat → Calc Int
  | 0 => throw (.expected "primary")
  | n + 1 => do
    let a ← arithPrimary scope quiet n
    let a ← arithBinary scope quiet 8 a n
    if (← get).token ≠ .sign "&&" then return a
    else
      advance
      let b ← arithAnd scope (quiet || a = 0) n
      return boolNumber (a ≠ 0 ∧ b ≠ 0)

def arithOr (scope : ArithScope) (quiet : Bool) : Nat → Calc Int
  | 0 => throw (.expected "primary")
  | n + 1 => do
    let a ← arithAnd scope quiet n
    if (← get).token ≠ .sign "||" then return a
    else
      advance
      let b ← arithOr scope (quiet || a ≠ 0) n
      return boolNumber (a ≠ 0 ∨ b ≠ 0)

def arithConditional (scope : ArithScope) (quiet : Bool) : Nat → Calc Int
  | 0 => throw (.expected "primary")
  | n + 1 => do
    let a ← arithOr scope quiet n
    if (← get).token ≠ .sign "?" then return a
    else
      advance
      let b ← arithAssignment scope (quiet || a = 0) n
      if (← get).token ≠ .sign ":" then throw (.expected "':'")
      advance
      let c ← arithConditional scope (quiet || a ≠ 0) n
      return if a ≠ 0 then b else c

/-- An assignment or a conditional expression. -/
def arithAssignment (scope : ArithScope) (quiet : Bool) : Nat → Calc Int
  | 0 => throw (.expected "primary")
  | n + 1 => do
    let s ← get
    match s.token, (arithToken s.rest).1 with
    | .name x, .sign o =>
      match assignOperator? o with
      | some operator => do
        advance
        advance
        let i ← arithAssignment scope quiet n
        if quiet then return i
        else
          match operator with
          | none => assignNumber scope x i
          | some o => do assignNumber scope x (← binaryValue o (← variableNumber scope x) i)
      | none => arithConditional scope quiet n
    | _, _ => arithConditional scope quiet n
end

/-- What an expression gives: its value, and the assignments in order, which count also when there
is no value. -/
structure ArithResult where
  value : Except ArithFault Int
  assigned : List (Text × Text)

def evaluateArith (scope : ArithScope) (source : Text) : ArithResult :=
  let whole : Calc Int := do
    advance
    let i ← arithAssignment scope false (8 * source.length + 8)
    if (← get).token ≠ .finish then throw (.expected "EOF")
    return i
  match whole ⟨source, .finish, []⟩ with
  | .ok i s => ⟨.ok i, s.assigned.reverse⟩
  | .error e s => ⟨.error e, s.assigned.reverse⟩

end CueScript.Shell
