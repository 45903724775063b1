import CueScript.Text.Utf8

/-!
# CueScript.Shell.Bytes — texts of the shell

Inside the shell a text is a sequence of bytes, each written as the character with its number. This
module converts texts from and to strings, writes numbers, and names the classes of characters that
several parts of the shell share.
-/

namespace CueScript.Shell

/-- A text as the shell sees it: one character, below 256, for each byte. -/
abbrev Text := List Char

/-! ## Conversions -/

/-- A string as a text of bytes. -/
def toBytes (s : String) : Text :=
  (Text.Utf8.encode s.toList).map fun b => Char.ofNat b.toNat

def bytesOf (s : Text) : List UInt8 :=
  s.map fun c => UInt8.ofNat c.toNat

def textOfBytes (bs : List UInt8) : Text :=
  bs.map fun b => Char.ofNat b.toNat

/-- The characters of a text of bytes. -/
def ofBytes (s : Text) : String :=
  String.ofList (Text.Utf8.decodeLossy (bytesOf s))

def natText (n : Nat) : Text :=
  Nat.toDigits 10 n

def integerText (i : Int) : Text :=
  if i < 0 then '-' :: natText i.natAbs else natText i.natAbs

def joinBlanks (ss : List Text) : Text :=
  (ss.intersperse [' ']).flatten

/-- The parts of a text between the places where a character stands. -/
def partsBetween (c : Char) (s : Text) : List Text :=
  s.foldr (fun d parts =>
    if d = c then [] :: parts
    else
      match parts with
      | part :: parts => (d :: part) :: parts
      | [] => [[d]]) [[]]

/-- A character written so often. -/
def repeated (c : Char) (n : Nat) : Text :=
  List.replicate n c

/-! ## Classes of characters -/

/-- The first letters of names. -/
def isNameStart (c : Char) : Bool :=
  c.isAlpha || c == '_'

def isNameChar (c : Char) : Bool :=
  c.isAlphanum || c == '_'

/-- The name that a text starts with, and what follows it. -/
def splitName (s : Text) : Text × Text :=
  match s with
  | c :: _ => if isNameStart c then (s.takeWhile isNameChar, s.dropWhile isNameChar) else ([], s)
  | [] => ([], [])

def isName (s : Text) : Bool :=
  match s with
  | c :: cs => isNameStart c && cs.all isNameChar
  | [] => false

/-- The characters that mean something in patterns, paths or assignments, so that quotes around them
have to be kept. -/
def isSign (c : Char) : Bool :=
  c ∈ ['!', '*', '?', '[', '=', '~', ':', '/', '-', ']', '\\']

/-- White space as the readers of numbers see it. -/
def isSpace (c : Char) : Bool :=
  c == ' ' || ('\t' ≤ c && c ≤ '\r')

def isOctal (c : Char) : Bool :=
  '0' ≤ c && c ≤ '7'

/-- The value of a digit up to sixteen. -/
def digitValue? (c : Char) : Option Nat :=
  if c.isDigit then some (c.toNat - 48)
  else if 'a' ≤ c ∧ c ≤ 'f' then some (c.toNat - 87)
  else if 'A' ≤ c ∧ c ≤ 'F' then some (c.toNat - 55)
  else none

def isDigitOf (base : Nat) (c : Char) : Bool :=
  (digitValue? c).any (· < base)

/-- The number that digits of a base denote, most significant digit first. -/
def numberOf (base : Nat) (s : Text) : Nat :=
  s.foldl (fun n c => base * n + (digitValue? c).getD 0) 0

/-- The number that a text of decimal digits denotes; nothing for any other text. -/
def natOf? (s : Text) : Option Nat :=
  if s.isEmpty || !s.all Char.isDigit then none else some (numberOf 10 s)

end CueScript.Shell
