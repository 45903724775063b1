import CueScript.Shell.Arguments

/-!
# CueScript.Shell.Bounds — what processes may do

1. **Masks** take permissions from new files. They are given in octal digits or by clauses on the
   permissions that are left.
2. **Limits** bound what a process uses. A process may lower them.
-/

namespace CueScript.Shell

/-! ## Masks -/

/-- The permissions that letters stand for, in the bits of one class of users. Letters of classes stand
for what these may do now. -/
def permissionBits (now : Nat) (letters : Text) : Nat :=
  letters.foldl (fun bits c =>
    bits ||| match c with
      | 'r' => 4
      | 'w' => 2
      | 'x' => 1
      | 'u' => now / 64
      | 'g' => now / 8
      | 'o' => now
      | 'X' => if now &&& 0o111 ≠ 0 then 1 else 0
      | _ => 0) 0 &&& 7

/-- The classes of users that letters stand for, as the lowest bit of each class. -/
def classBits (letters : Text) : Nat :=
  letters.foldl (fun bits c =>
    bits ||| match c with
      | 'u' => 0o100
      | 'g' => 0o10
      | 'o' => 1
      | _ => 0o111) 0

/-- Carries clauses out on permissions. `classes` are those that the clause in front was for, if it
goes on. The bound is on the number of characters. -/
def applyClauses : Nat → Nat → Nat → Text → Option Nat
  | _, _, now, [] => some now
  | 0, _, _, _ => none
  | n + 1, classes, now, s =>
    let who := s.takeWhile (· ∈ ['a', 'u', 'g', 'o'])
    let classes := classes ||| classBits who
    let classes := if classes = 0 then 0o111 else classes
    match s.drop who.length with
    | [] => some now
    | sign :: rest =>
      let letters := rest.takeWhile (· ∈ ['r', 'w', 'x', 'u', 'g', 'o', 'X', 's'])
      let bits := permissionBits now letters * classes
      let next := match sign with
        | '-' => now - (now &&& bits)
        | '+' => now ||| bits
        | _ => bits ||| (now - (now &&& (classes * 7)))
      if sign ∉ ['=', '+', '-'] then none
      else
        match rest.drop letters.length with
        | ',' :: rest => applyClauses n 0 next rest
        | [] => some next
        | c :: rest => if c ∈ ['=', '+', '-'] then applyClauses n classes next (c :: rest) else none

def clausesText (now : Nat) : Text :=
  let letters (bits : Nat) : Text :=
    (if bits &&& 4 ≠ 0 then ['r'] else []) ++ (if bits &&& 2 ≠ 0 then ['w'] else [])
      ++ (if bits &&& 1 ≠ 0 then ['x'] else [])
  "u=".toList ++ letters (now / 64) ++ ",g=".toList ++ letters (now / 8) ++ ",o=".toList ++ letters now

def runUmask (args : List Text) : Exec Nat := do
  let (options, args) ← readOptions ['S'] args
  let mask := (← process).mask
  match args with
  | [] =>
    let digits := Nat.toDigits 8 mask
    put (if options.isEmpty then repeated '0' (4 - digits.length) ++ digits ++ ['\n']
      else clausesText (0o777 - mask) ++ ['\n'])
  | mode :: _ =>
    if (mode.head?.any Char.isDigit) then
      if !mode.all isOctal then failNumber mode
      alter fun p => { p with mask := numberOf 8 mode % 0o1000 }
    else
      match applyClauses (mode.length + 1) 0 (0o777 - mask) mode with
      | some now => alter fun p => { p with mask := 0o777 - now }
      | none => fail ("Illegal mode: ".toList ++ mode)
  return 0

/-! ## Limits -/

/-- A quantity that is bounded: its name, the size of its unit, and its bound at the start. -/
structure Quantity where
  letter : Char
  name : String
  unit : Nat
  start : Limit

def quantities : List Quantity :=
  [⟨'t', "time(seconds)", 1, ⟨none, none⟩⟩, ⟨'f', "file(blocks)", 512, ⟨none, none⟩⟩,
    ⟨'d', "data(kbytes)", 1024, ⟨none, none⟩⟩, ⟨'s', "stack(kbytes)", 1024, ⟨some 8388608, none⟩⟩,
    ⟨'c', "coredump(blocks)", 512, ⟨some 0, none⟩⟩, ⟨'m', "memory(kbytes)", 1024, ⟨none, none⟩⟩,
    ⟨'l', "locked memory(kbytes)", 1024, ⟨some 8388608, some 8388608⟩⟩,
    ⟨'p', "process", 1, ⟨none, none⟩⟩, ⟨'n', "nofiles", 1, ⟨some 1048576, some 1048576⟩⟩,
    ⟨'v', "vmemory(kbytes)", 1024, ⟨none, none⟩⟩, ⟨'w', "locks", 1, ⟨none, none⟩⟩,
    ⟨'r', "rtprio", 1, ⟨some 0, some 0⟩⟩]

def Process.limit (p : Process) (q : Quantity) : Limit :=
  (p.limits.lookup q.letter).getD q.start

/-- A bound in the unit of its quantity. -/
def boundText (q : Quantity) : Option Nat → Text
  | some n => natText (n / q.unit) ++ ['\n']
  | none => "unlimited\n".toList

/-- The bound that an argument gives; there may be no bound. -/
def argumentBound (q : Quantity) (s : Text) : Exec (Option Nat) := do
  if s = "unlimited".toList then return none
  if !s.all Char.isDigit then fail "bad number".toList
  let n := numberOf 10 s * q.unit % Nat.pow 2 64
  return if n = Nat.pow 2 64 - 1 then none else some n

/-- Whether one bound is not above another one. -/
def isWithin : Option Nat → Option Nat → Bool
  | _, none => true
  | some a, some b => a ≤ b
  | none, some _ => false

def runUlimit (args : List Text) : Exec Nat := do
  let (options, args) ← readOptions "HSatfdscmlpnvwr".toList args
  let letters := options.map Prod.fst
  let side := (letters.filter (· ∈ ['H', 'S'])).getLast?
  let letter := ((letters.filter (· ∉ ['H', 'S', 'a'])).getLast?).getD 'f'
  let p ← process
  let shown (q : Quantity) : Text :=
    boundText q (if side = some 'H' then (p.limit q).hard else (p.limit q).soft)
  match quantities.find? fun q => q.letter = letter, args with
  | some q, s :: more =>
    if letters.contains 'a' ∨ !more.isEmpty then fail "too many arguments".toList
    let bound ← argumentBound q s
    let old := p.limit q
    let new : Limit := ⟨if side = some 'H' then old.soft else bound,
      if side = some 'S' then old.hard else bound⟩
    let refuse (e : String) : Exec Unit := fail ("error setting limit (".toList ++ e.toList ++ [')'])
    if !isWithin new.soft new.hard then refuse "Invalid argument"
    if !isWithin new.hard old.hard then refuse OsError.notPermitted.phrase
    alter fun p => { p with limits := Bindings.insert q.letter new p.limits }
  | some q, [] =>
    if letters.contains 'a' then
      put (quantities.flatMap fun q =>
        q.name.toList ++ repeated ' ' (20 - q.name.length) ++ ' ' :: shown q)
    else put (shown q)
  | none, _ => pure ()
  return 0

end CueScript.Shell
