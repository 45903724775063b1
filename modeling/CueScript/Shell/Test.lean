import CueScript.Shell.Arithmetic
import CueScript.Shell.Redirection

/-!
# CueScript.Shell.Test — the conditions of `test`

1. **Roles**: an argument is an operand, an operator, or a sign between conditions; an operator with
   nothing to work on is an operand.
2. **Conditions** are made of primaries on texts, numbers and paths, with `!`, parentheses, `-a` and
   `-o`. Three and four arguments are read by their number first.
-/

namespace CueScript.Shell

/-- Why a condition has no answer. -/
inductive TestError where
  | unexpectedOperator (s : Text)
  | argumentExpected (operator : Text)
  | missingParenthesis
  | illegalNumber (s : Text)
deriving Repr, DecidableEq

def TestError.message : TestError → Text
  | unexpectedOperator [] => "unexpected operator".toList
  | unexpectedOperator s => s ++ ": unexpected operator".toList
  | argumentExpected o => o ++ ": argument expected".toList
  | missingParenthesis => "closing paren expected".toList
  | illegalNumber s => "Illegal number: ".toList ++ s

/-! ## Primaries -/

/-- The number that an operand denotes; blanks around it do not count. -/
def testInteger (s : Text) : Except TestError Int :=
  match decimalOf? s with
  | some i => .ok i
  | none => .error (.illegalNumber s)

/-- Directories that anybody may put files into, and those whose files go to their group. -/
def stickyPlaces : List (List String) :=
  [["tmp"], ["var", "tmp"], ["dev", "shm"], ["run", "lock"]]

@[inherit_doc stickyPlaces]
def groupPlaces : List (List String) :=
  [["var", "mail"], ["var", "local"]]

/-- Whether a path leads to a link. The names of streams are links. -/
def isLink (m : Machine) (path : Text) : Bool :=
  match streamNamed? path with
  | some _ => (m.lookAt path).isOk
  | none =>
    match m.world.locate false (ofBytes path) with
    | .ok (_, some (.link _)) => true
    | _ => false

def unaryTest? (m : Machine) (o : Text) : Option (Text → Except TestError Bool) :=
  let leadsTo (p : Option (List String) × Entry → Bool) (s : Text) : Except TestError Bool :=
    match m.lookAt s with
    | .ok e => .ok (p e)
    | .error _ => .ok false
  let isIn (places : List (List String)) := leadsTo fun e => e.1.any (· ∈ places)
  match String.ofList o with
  | "-n" => some fun s => .ok !s.isEmpty
  | "-z" => some fun s => .ok s.isEmpty
  | "-d" => some (leadsTo fun e => e.2 = .directory)
  | "-f" => some (leadsTo fun e =>
    match e.2 with
    | .file _ | .program _ => true
    | _ => false)
  | "-c" => some (leadsTo fun e =>
    match e.2 with
    | .device _ => true
    | _ => false)
  | "-p" => some (leadsTo fun e =>
    match e.2 with
    | .link _ => true
    | _ => false)
  | "-e" | "-r" | "-w" | "-O" | "-G" => some (leadsTo fun _ => true)
  | "-x" => some (leadsTo fun e =>
    match e.2 with
    | .directory | .program _ => true
    | _ => false)
  | "-s" => some (leadsTo fun e =>
    match e.2 with
    | .file content => !content.isEmpty
    | .directory | .program _ => true
    | _ => false)
  | "-h" | "-L" => some fun s => .ok (isLink m s)
  | "-k" => some (isIn stickyPlaces)
  | "-g" => some (isIn groupPlaces)
  | "-S" | "-b" | "-u" => some fun _ => .ok false
  | "-t" => some fun s => (testInteger s).map fun _ => false
  | _ => none

/-- The binary primary with a given name. Files have no ages. -/
def binaryTest? (m : Machine) (o : Text) : Option (Text → Text → Except TestError Bool) :=
  let compare (p : Int → Int → Bool) (a b : Text) : Except TestError Bool := do
    return p (← testInteger a) (← testInteger b)
  let same (a b : Text) : Bool :=
    match m.lookAt a, m.lookAt b with
    | .ok (p, e), .ok (q, f) => if p.isSome ∧ q.isSome then p = q else e = f
    | _, _ => false
  match String.ofList o with
  | "=" => some fun a b => .ok (a == b)
  | "!=" => some fun a b => .ok (a != b)
  | "<" => some fun a b => .ok (decide (a < b))
  | ">" => some fun a b => .ok (decide (b < a))
  | "-eq" => some (compare fun a b => a == b)
  | "-ne" => some (compare fun a b => a != b)
  | "-lt" => some (compare fun a b => a < b)
  | "-le" => some (compare fun a b => a ≤ b)
  | "-gt" => some (compare fun a b => a > b)
  | "-ge" => some (compare fun a b => a ≥ b)
  | "-nt" | "-ot" => some fun _ _ => .ok false
  | "-ef" => some fun a b => .ok (same a b)
  | _ => none

/-! ## Roles -/

/-- What an argument is by its spelling. -/
inductive TestRole where
  | operand
  | negation
  | opening
  | closing
  | both
  | either
  | unary (p : Text → Except TestError Bool)
  | binary (p : Text → Text → Except TestError Bool)

/-- The role that a spelling has by itself. -/
def TestRole.ofText (m : Machine) (s : Text) : TestRole :=
  match String.ofList s with
  | "!" => negation
  | "(" => opening
  | ")" => closing
  | "-a" => both
  | "-o" => either
  | _ =>
    match unaryTest? m s, binaryTest? m s with
    | some p, _ => unary p
    | none, some p => binary p
    | none, none => operand

/-- Whether the arguments behind a unary operator make it an operand. -/
def leavesOperand (m : Machine) : List Text → Bool
  | [] => true
  | [_] => false
  | s :: _ =>
    match TestRole.ofText m s with
    | .binary _ => true
    | _ => false

/-- The role of the first of some arguments; nothing when there is none. -/
def testRole? (m : Machine) : List Text → Option TestRole
  | [] => none
  | s :: rest =>
    match TestRole.ofText m s with
    | .unary p => some (if leavesOperand m rest then .operand else .unary p)
    | .opening => some (if rest.isEmpty then .operand else .opening)
    | role => some role

/-! ## Conditions -/

/-- Answers a condition that starts with an operand: a comparison, or whether the operand is not
empty. -/
def testOperand (m : Machine) (a : Text) (rest : List Text) : Except TestError (Bool × List Text) :=
  match testRole? m rest, rest with
  | some (.binary p), o :: rest =>
    match rest with
    | b :: rest => do return (← p a b, rest)
    | [] => .error (.argumentExpected o)
  | _, _ => .ok (!a.isEmpty, rest)

mutual
/-- Reads conditions with `-o` between them. -/
def testEither (m : Machine) : Nat → List Text → Except TestError (Bool × List Text)
  | 0, _ => .error .missingParenthesis
  | n + 1, args => do
    let (a, rest) ← testBoth m n args
    match testRole? m rest with
    | some .either => do
      let (b, rest) ← testEither m n (rest.drop 1)
      return (a || b, rest)
    | _ => return (a, rest)

/-- Reads conditions with `-a` between them. -/
def testBoth (m : Machine) : Nat → List Text → Except TestError (Bool × List Text)
  | 0, _ => .error .missingParenthesis
  | n + 1, args => do
    let (a, rest) ← testPrimary m n args
    match testRole? m rest with
    | some .both => do
      let (b, rest) ← testBoth m n (rest.drop 1)
      return (a && b, rest)
    | _ => return (a, rest)

/-- Reads a primary, negated or not. Nothing at all is false. -/
def testPrimary (m : Machine) : Nat → List Text → Except TestError (Bool × List Text)
  | 0, _ => .error .missingParenthesis
  | n + 1, args =>
    match testRole? m args, args with
    | some .negation, _ :: rest => do
      let (r, rest) ← testPrimary m n rest
      return (!r, rest)
    | some .opening, _ :: rest =>
      match testRole? m rest with
      | some .closing => .ok (false, rest.drop 1)
      | _ => do
        let (r, rest) ← testEither m n rest
        match testRole? m rest with
        | some .closing => return (r, rest.drop 1)
        | _ => .error .missingParenthesis
    | some (.unary p), _ :: a :: rest => do return (← p a, rest)
    | _, a :: rest => testOperand m a rest
    | _, [] => .ok (false, [])
end

/-- Answers a condition as a whole. What is left behind it is reported under the argument in front of
it. -/
def testWhole (m : Machine) (args : List Text) : Except TestError Bool := do
  let (r, rest) ← testEither m (4 * args.length + 4) args
  if rest.isEmpty then return r
  else .error (.unexpectedOperator (args[args.length - rest.length - 1]?.getD []))

def inParentheses (args : List Text) : Bool :=
  args.head? == some ['('] && args.getLast? == some [')']

/-- Answers a condition. With three and four arguments a comparison counts first, then parentheses
around all, then negations in front, which count once together. -/
def testCondition (m : Machine) (args : List Text) : Except TestError Bool :=
  match args with
  | [] => .ok false
  | [a, o, b] =>
    match binaryTest? m o with
    | some p => p a b
    | none =>
      if inParentheses args then testWhole m [o]
      else if a = ['!'] then (testWhole m [o, b]).map (!·)
      else testWhole m args
  | [n, a, o, b] =>
    if inParentheses args then testWhole m [a, o]
    else if n = ['!'] then
      match binaryTest? m o with
      | some p => (p a b).map (!·)
      | none =>
        if inParentheses [a, o, b] then (testWhole m [o]).map (!·)
        else if a = ['!'] then (testWhole m [o, b]).map (!·)
        else (testWhole m [a, o, b]).map (!·)
    else testWhole m args
  | _ => testWhole m args

end CueScript.Shell
