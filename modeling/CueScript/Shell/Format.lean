import CueScript.Shell.Escape
import CueScript.Shell.Number
import CueScript.Shell.Quoted

/-!
# CueScript.Shell.Format — what `printf` writes

1. **Conversions**: flags, width and precision, and how texts, integers and reals are written.
2. **Directives** are read off a format. The command of the shell and the program know different
   ones.
3. **Formats** are used again as long as arguments are left. What is wrong with an argument is given
   at its place in the output; some faults end the output.
-/

namespace CueScript.Shell

/-! ## Conversions -/

/-- The flags, the width and the precision of a directive. -/
structure Spec where
  left : Bool
  zero : Bool
  plus : Bool
  blank : Bool
  alternate : Bool
  width : Nat
  precision : Option Nat
deriving Repr, DecidableEq

namespace Spec

/-- Fills a text up to the width of its directive. -/
def pad (sp : Spec) (s : Text) : Text :=
  let fill := repeated ' ' (sp.width - s.length)
  if sp.left then s ++ fill else fill ++ s

/-- Writes a text, cut to the precision. -/
def text (sp : Spec) (s : Text) : Text :=
  sp.pad (match sp.precision with
    | some n => s.take n
    | none => s)

/-- Writes digits behind a sign or mark, with zeros between them on demand. -/
def signed (sp : Spec) (zeros : Bool) (sign digits : Text) : Text :=
  if sp.zero && !sp.left && zeros then
    sign ++ repeated '0' (sp.width - sign.length - digits.length) ++ digits
  else sp.pad (sign ++ digits)

def sign (sp : Spec) (negative : Bool) : Text :=
  if negative then ['-'] else if sp.plus then ['+'] else if sp.blank then [' '] else []

/-- The digits of a number, filled up to the precision; zero has no digits when none are asked for. -/
def digits (sp : Spec) (base n : Nat) : Text :=
  let ds := if n = 0 ∧ sp.precision = some 0 then [] else Nat.toDigits base n
  repeated '0' (sp.precision.getD 0 - ds.length) ++ ds

/-- Writes an integer by a conversion letter. -/
def integer (sp : Spec) (conversion : Char) (i : Int) : Text :=
  let unsigned := (i % Int.pow 2 64).toNat
  let write (sign ds : Text) : Text := sp.signed sp.precision.isNone sign ds
  let hex := sp.digits 16 unsigned
  match conversion with
  | 'u' => write [] (sp.digits 10 unsigned)
  | 'o' =>
    let ds := sp.digits 8 unsigned
    write [] (if sp.alternate ∧ ds.head? ≠ some '0' then '0' :: ds else ds)
  | 'x' => write (if sp.alternate ∧ i ≠ 0 then ['0', 'x'] else []) hex
  | 'X' => write (if sp.alternate ∧ i ≠ 0 then ['0', 'X'] else []) (hex.map Char.toUpper)
  | _ => write (sp.sign (i < 0)) (sp.digits 10 i.natAbs)

/-- Drops zeros at the end of the places behind the point, and a point with nothing behind it. -/
def dropPlaces (s : Text) : Text :=
  if s.contains '.' then
    ((s.reverse.dropWhile (· == '0')).dropWhile (· == '.')).reverse
  else s

/-- A number without places keeps its point on demand. -/
def point (sp : Spec) (s : Text) : Text :=
  if s.contains '.' then if s.getLast? = some '.' ∧ !sp.alternate then s.dropLast else s
  else if sp.alternate then s ++ ['.'] else s

def exponent (letter : Char) (least : Nat) (e : Int) : Text :=
  let ds := natText e.natAbs
  [letter, if e < 0 then '-' else '+'] ++ repeated '0' (least - ds.length) ++ ds

/-- A number in hexadecimal digits. Its first digit holds `lead` bits. -/
def hexadecimal (sp : Spec) (f : Decimal.BinaryFormat) (lead : Nat) (x : Decimal.Dyadic) : Text :=
  let places := (f.bits - lead) / 4
  let scale := if x.mantissa = 0 then 0 else x.exponent + 4 * places
  let kept := sp.precision.getD places
  let rounded := if places ≤ kept then x.mantissa else Decimal.roundDiv x.mantissa (Nat.pow 16 (places - kept))
  let written := min places kept
  let first := rounded / Nat.pow 16 written
  let rest := Nat.toDigits 16 (rounded % Nat.pow 16 written)
  let rest := if written = 0 then [] else repeated '0' (written - rest.length) ++ rest
  let (first, scale) := if first = 16 then (1, scale + 4) else (first, scale)
  let rest := match sp.precision with
    | none => (rest.reverse.dropWhile (· == '0')).reverse
    | some n => rest ++ repeated '0' (n - rest.length)
  Nat.toDigits 16 first ++ (if rest.isEmpty ∧ !sp.alternate then [] else ['.']) ++ rest
    ++ exponent 'p' 1 scale

/-- A decimal number with places behind the point, with an exponent, or in the shorter of the two
ways, by the conversion letter `f`, `e` or `g`. -/
def unsignedDecimal (sp : Spec) (conversion : Char) (x : Decimal.Dyadic) : Text :=
  let precision := sp.precision.getD 6
  let withExponent (places : Nat) : Text × Text :=
    let (c, e) := x.scientific places
    (Decimal.Scaled.layout ⟨c, -(places : Int)⟩, exponent 'e' 2 e)
  if conversion = 'f' then sp.point (x.fixed precision)
  else if conversion = 'e' then
    let (digits, e) := withExponent precision
    sp.point digits ++ e
  else
    let count := max precision 1
    let e := (x.scientific (count - 1)).2
    let trim (s : Text) : Text := if sp.alternate then sp.point s else dropPlaces s
    if -4 ≤ e ∧ e < count then trim (x.fixed (count - 1 - e).toNat)
    else
      let (digits, e) := withExponent (count - 1)
      trim digits ++ e

/-- Writes a real number of a format by a conversion letter; capital letters write in capitals. -/
def real (sp : Spec) (f : Decimal.BinaryFormat) (conversion : Char) (x : Signed) : Text :=
  let sign := sp.sign x.negative
  let letter := conversion.toLower
  let written := match x.size with
    | .undefined => sp.signed false sign "nan".toList
    | .infinite => sp.signed false sign "inf".toList
    | .finite d =>
      if letter = 'a' then
        sp.signed true (sign ++ ['0', 'x'])
          (sp.hexadecimal f (if f = Decimal.binary64 then 1 else 4) d)
      else sp.signed true sign (sp.unsignedDecimal letter d)
  if conversion.isUpper then written.map Char.toUpper else written

end Spec

/-! ## Directives -/

/-- A part of the output of a format. -/
inductive FormatPart where
  | text (s : Text)
  /-- An argument is not the number that it has to be. -/
  | fault (argument : Text) (f : NumberFault)
deriving Repr, DecidableEq

/-- What ends the output of a format early. -/
inductive FormatStop where
  | escape (e : EscapeEnd)
  /-- A directive is unknown. -/
  | directive (written : Text)
  /-- A directive has no conversion letter. -/
  | unfinished
  /-- A width or a precision is too large. -/
  | tooWide
  /-- An argument is too large for a width. -/
  | width (argument : Text)
  /-- An argument is too large for a precision. -/
  | precision (argument : Text)
deriving Repr, DecidableEq

structure Formatted where
  parts : List FormatPart
  /-- The arguments that are left. -/
  rest : List Text
  stop : Option FormatStop

namespace Formatted

def done (args : List Text) : Formatted :=
  ⟨[], args, none⟩

def stopped (args : List Text) (stop : FormatStop) : Formatted :=
  ⟨[], args, some stop⟩

/-- Puts parts in front of what the rest of a format gives. -/
def after (parts : List FormatPart) (f : Formatted) : Formatted :=
  { f with parts := parts ++ f.parts }

end Formatted

/-- A directive up to its conversion letter. -/
structure Directive where
  spec : Spec
  flags : Text
  /-- Whether there is a precision. -/
  isCut : Bool
  parts : List FormatPart
  rest : Text
  args : List Text
  stop : Option FormatStop

/-- The part that a fault of an argument makes. The command of the shell takes no offence at characters
that follow the one behind a quote. -/
def faultParts (inProgram : Bool) (argument : Text) (fault : Option NumberFault) : List FormatPart :=
  match fault with
  | none => []
  | some (.moreCharacters s) =>
    if inProgram then [.fault argument (.moreCharacters s)] else []
  | some f => if argument.isEmpty then [] else [.fault argument f]

/-- The argument where a number is read. A quote alone is no number for the program. -/
def numeral (inProgram : Bool) (argument : Text) : Text :=
  if inProgram ∧ (argument = ['"'] ∨ argument = ['\'']) then [] else argument

/-- A width or a precision. -/
structure Count where
  value : Int
  /-- The argument that it comes from, when a star stands for it. -/
  argument : Option Text
  parts : List FormatPart
  rest : Text
  args : List Text

/-- Reads a number, or a star that takes its value from the arguments. The command of the shell keeps as
many bits of it as an integer of the system has. -/
def readCount (inProgram : Bool) (s : Text) (args : List Text) : Count :=
  match s with
  | '*' :: rest =>
    let arg := args.headD []
    let (i, fault) := argumentInteger (-Int.pow 2 63) (Int.pow 2 63 - 1) (numeral inProgram arg)
    { value := if inProgram then i else Int.bmod i (Nat.pow 2 32)
      argument := some arg
      parts := faultParts inProgram arg fault
      rest
      args := args.drop 1 }
  | _ =>
    { value := numberOf 10 (s.takeWhile Char.isDigit)
      argument := none
      parts := []
      rest := s.dropWhile Char.isDigit
      args }

/-- Reads the flags, the width and the precision of a directive. -/
def readDirective (inProgram : Bool) (s : Text) (args : List Text) : Directive :=
  let isFlag (c : Char) : Bool :=
    c ∈ ['#', '-', '+', ' ', '0'] || (inProgram && (c == '\'' || c == 'I'))
  let flags := s.takeWhile isFlag
  let width := readCount inProgram (s.dropWhile isFlag) args
  let precision : Option Count := match width.rest with
    | '.' :: rest => some (readCount inProgram rest width.args)
    | _ => none
  let s := (precision.getD width).rest
  let tooWide := width.argument.filter fun _ => width.value < -Int.pow 2 31 ∨ Int.pow 2 31 ≤ width.value
  let tooPrecise := precision.bind fun p => p.argument.filter fun _ => Int.pow 2 31 ≤ p.value
  { spec :=
      { left := flags.contains '-' || width.value < 0
        zero := flags.contains '0'
        plus := flags.contains '+'
        blank := flags.contains ' '
        alternate := flags.contains '#'
        width := width.value.natAbs
        precision := ((precision.map Count.value).filter (0 ≤ ·)).map Int.toNat }
    flags
    isCut := precision.isSome
    parts := width.parts ++
      (if tooWide.isSome then [] else (precision.map Count.parts).getD [])
    rest := if inProgram then s.dropWhile (· ∈ ['l', 'L', 'h', 'j', 't', 'z']) else s
    args := (precision.getD width).args
    stop := (tooWide.map FormatStop.width).or (tooPrecise.map FormatStop.precision) }

/-- Whether a directive may have a conversion letter. -/
def Directive.allows (d : Directive) (inProgram : Bool) (c : Char) : Bool :=
  if !inProgram then
    c ∈ ['a', 'A', 'b', 'c', 'd', 'e', 'E', 'f', 'F', 'g', 'G', 'i', 'o', 's', 'u', 'x', 'X']
  else
    c ∈ ['a', 'A', 'c', 'd', 'e', 'E', 'f', 'F', 'g', 'G', 'i', 'o', 's', 'u', 'x', 'X']
      && !(d.flags.any (· ∈ ['\'', 'I']) && c ∈ ['a', 'A', 'c', 'e', 'E', 'o', 's', 'x', 'X'])
      && !(d.flags.contains '#' && c ∈ ['c', 'd', 'i', 's', 'u'])
      && !(d.flags.contains '0' && c ∈ ['c', 's'])
      && !(d.isCut && c == 'c')

/-- Who replaces the escapes in a format. -/
def escaper (inProgram : Bool) : Escaper :=
  if inProgram then .printfProgram else .shell

/-- Carries a directive with a conversion letter out. -/
def Directive.write (d : Directive) (inProgram : Bool) (c : Char) :
    List FormatPart × Option FormatStop :=
  let arg := d.args.headD []
  let number := numeral inProgram arg
  let faulty (fault : Option NumberFault) (s : Text) : List FormatPart × Option FormatStop :=
    (faultParts inProgram arg fault ++ [.text s], none)
  if Nat.pow 2 31 - 1 ≤ max d.spec.width (d.spec.precision.getD 0) then ([], some .tooWide)
  else
    match c with
    | 's' => ([.text (d.spec.text arg)], none)
    | 'c' => ([.text (d.spec.pad (if arg.isEmpty then ['\x00'] else arg.take 1))], none)
    | 'b' =>
      let u := unescape (escaper inProgram) arg
      ([.text (d.spec.text u.text)], u.stop.map .escape)
    | 'd' | 'i' =>
      let (i, fault) := argumentInteger (-Int.pow 2 63) (Int.pow 2 63 - 1) number
      faulty fault (d.spec.integer c i)
    | 'o' | 'u' | 'x' | 'X' =>
      let (i, fault) := argumentUnsigned number
      faulty fault (d.spec.integer c i)
    | _ =>
      let f := if inProgram then Decimal.binary80 else Decimal.binary64
      let (x, fault) := argumentReal f number
      faulty fault (d.spec.real f c x)

/-! ## Formats -/

/-- Uses a format once. The bound is on the number of characters. -/
def formatOnce (inProgram : Bool) : Nat → Text → List Text → Formatted
  | 0, _, args | _, [], args => .done args
  | n + 1, '\\' :: s, args =>
    match escapeAt (escaper inProgram) s with
    | .text out rest => (formatOnce inProgram n rest args).after [.text out]
    | .ends e => .stopped args (.escape e)
  | n + 1, '%' :: '%' :: s, args => (formatOnce inProgram n s args).after [.text ['%']]
  | n + 1, '%' :: s, args =>
    match inProgram, s with
    | true, 'b' :: rest =>
      let u := unescape .printfProgram (args.headD [])
      let next := match u.stop with
        | some e => Formatted.stopped [] (.escape e)
        | none => formatOnce inProgram n rest (args.drop 1)
      next.after [.text u.text]
    | true, 'q' :: rest =>
      (formatOnce inProgram n rest (args.drop 1)).after ((args.take 1).map fun a => .text (asWord a))
    | _, _ =>
      let d := readDirective inProgram s args
      match d.stop, d.rest with
      | some stop, _ => (Formatted.stopped args stop).after d.parts
      | none, [] =>
        (Formatted.stopped args
          (if inProgram then .directive ('%' :: s) else .unfinished)).after d.parts
      | none, c :: rest =>
        if d.allows inProgram c then
          let (parts, stop) := d.write inProgram c
          match stop with
          | some stop => (Formatted.stopped (d.args.drop 1) stop).after (d.parts ++ parts)
          | none => (formatOnce inProgram n rest (d.args.drop 1)).after (d.parts ++ parts)
        else
          let written := '%' :: s.take (s.length - rest.length)
          (Formatted.stopped args (.directive written)).after d.parts
  | n + 1, c :: s, args => (formatOnce inProgram n s args).after [.text [c]]

/-- Uses a format until no argument is left. The bound is on the number of arguments. -/
def formatAll (inProgram : Bool) (format : Text) : Nat → List Text → Formatted
  | 0, args => .done args
  | n + 1, args =>
    let f := formatOnce inProgram (format.length + 1) format args
    if f.stop.isSome ∨ f.rest.isEmpty ∨ f.rest.length = args.length then f
    else (formatAll inProgram format n f.rest).after f.parts

/-- What `printf` gives for a format and its arguments. -/
def printfParts (inProgram : Bool) (format : Text) (args : List Text) : Formatted :=
  formatAll inProgram format (args.length + 1) args

end CueScript.Shell
