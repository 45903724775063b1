import CueScript.Shell.Bytes

/-!
# CueScript.Shell.Escape — backslash escapes and `echo`

1. **Escapes** are letters and octal numbers of up to three digits. Programs know hexadecimal numbers
   besides, and `printf` the numbers of characters too. `\c` ends the output.
2. **Echo** writes its arguments with blanks between them.
-/

namespace CueScript.Shell

/-! ## Escapes -/

/-- Who replaces escapes. -/
inductive Escaper where
  | shell
  | echoProgram
  | printfProgram
deriving Repr, DecidableEq

/-- The byte of up to three octal digits at the front of a text, and what follows them. -/
def octalByte (s : Text) : Char × Text :=
  let ds := (s.takeWhile isOctal).take 3
  (Char.ofNat (numberOf 8 ds % 256), s.drop ds.length)

/-- The character that a letter behind a backslash stands for. -/
def letterEscape? : Char → Option Char
  | '\\' => some '\\'
  | 'a' => some '\x07'
  | 'b' => some '\x08'
  | 'e' => some '\x1b'
  | 'f' => some '\x0c'
  | 'n' => some '\n'
  | 'r' => some '\r'
  | 't' => some '\t'
  | 'v' => some '\x0b'
  | _ => none

/-- Why a text ends at an escape. -/
inductive EscapeEnd where
  /-- The escape says so. -/
  | finish
  /-- A number has not enough digits. -/
  | noDigits
  /-- A number is that of no character. -/
  | noCharacter (written : Text)
deriving Repr, DecidableEq

/-- What is written for a text behind a backslash. -/
inductive Escaped where
  | text (s rest : Text)
  | ends (e : EscapeEnd)
deriving Repr, DecidableEq

/-- A hexadecimal number with at least `least` and at most `most` digits, and what follows it. -/
def hexNumber? (least most : Nat) (s : Text) : Option (Nat × Text) :=
  let ds := (s.takeWhile (isDigitOf 16)).take most
  if ds.length < least then none else some (numberOf 16 ds, s.drop ds.length)

/-- The number of a character as an escape. -/
def numberEscape (n : Nat) : Text :=
  let digits := (Nat.toDigits 16 n).map Char.toUpper
  if n < 0x10000 then '\\' :: 'u' :: repeated '0' (4 - digits.length) ++ digits
  else '\\' :: 'U' :: repeated '0' (8 - digits.length) ++ digits

/-- The character with a number of so many digits. Characters outside of ASCII stay escapes. -/
def characterEscape (letter : Char) (digits : Nat) (s : Text) : Escaped :=
  match hexNumber? digits digits s with
  | none => .ends .noDigits
  | some (n, rest) =>
    if 0xd800 ≤ n ∧ n < 0xe000 then .ends (.noCharacter ('\\' :: letter :: s.take digits))
    else .text (if n < 128 then [Char.ofNat n] else numberEscape n) rest

/-- The escape at the front of a text, behind its backslash. A backslash that starts none stands for
itself; the programs write what follows it as it is, while the shell reads on behind the
backslash. -/
def escapeAt (who : Escaper) (s : Text) : Escaped :=
  match s with
  | [] => .text ['\\'] []
  | c :: rest =>
    if isOctal c then
      let (b, rest) := octalByte s
      .text [b] rest
    else
      match letterEscape? c with
      | some d => .text [d] rest
      | none =>
        match who, c with
        | .echoProgram, 'x' | .printfProgram, 'x' =>
          match hexNumber? 1 2 rest with
          | some (n, rest) => .text [Char.ofNat n] rest
          | none => if who = .printfProgram then .ends .noDigits else .text ['\\', c] rest
        | .printfProgram, '"' => .text [c] rest
        | .printfProgram, 'c' => .ends .finish
        | .printfProgram, 'u' => characterEscape c 4 rest
        | .printfProgram, 'U' => characterEscape c 8 rest
        | .shell, _ => .text ['\\'] s
        | _, _ => .text ['\\', c] rest

/-- The escape at the front of an argument, behind its backslash. Octal numbers may have a zero in
front of their three digits. -/
def argumentEscapeAt (who : Escaper) (s : Text) : Escaped :=
  match s with
  | 'c' :: _ => .ends .finish
  | '0' :: d :: rest => if isOctal d then escapeAt who (d :: rest) else escapeAt who s
  | _ => escapeAt who s

/-- A text with its escapes replaced, up to one that ends it. -/
structure Unescaped where
  text : Text
  stop : Option EscapeEnd
deriving Repr, DecidableEq

/-- Replaces the escapes of an argument. The bound is on the number of characters. -/
def unescapeFrom (who : Escaper) : Nat → Text → Unescaped
  | 0, _ | _, [] => ⟨[], none⟩
  | n + 1, '\\' :: s =>
    match argumentEscapeAt who s with
    | .ends e => ⟨[], some e⟩
    | .text out rest =>
      let u := unescapeFrom who n rest
      { u with text := out ++ u.text }
  | n + 1, c :: s =>
    let u := unescapeFrom who n s
    { u with text := c :: u.text }

/-- Replaces the escapes of an argument. -/
def unescape (who : Escaper) (s : Text) : Unescaped :=
  unescapeFrom who (s.length + 1) s

/-! ## Echo -/

/-- What `echo` writes for its arguments, with escapes replaced if somebody is given for that, and a line
end if `newline` is. -/
def echoArguments (who : Option Escaper) (newline : Bool) : List Text → Text
  | [] => if newline then ['\n'] else []
  | a :: rest =>
    let u := match who with
      | some who => unescape who a
      | none => ⟨a, none⟩
    u.text ++
      (if u.stop.isSome then []
      else (if rest.isEmpty then [] else [' ']) ++ echoArguments who newline rest)

/-- What the `echo` of the shell writes. -/
def echoText : List Text → Text
  | ['-', 'n'] :: args => echoArguments (some .shell) false args
  | args => echoArguments (some .shell) true args

/-- What the program `echo` writes: escapes are replaced only after the option `-e`. -/
def programEcho (newline escapes : Bool) (args : List Text) : Text :=
  let written := echoArguments (if escapes then some .echoProgram else none) newline args
  match args with
  | ('-' :: c :: cs) :: rest =>
    let letters := c :: cs
    if letters.all (· ∈ ['n', 'e', 'E']) then
      programEcho (newline && !letters.contains 'n')
        (letters.foldl (fun b l => if l = 'n' then b else l == 'e') escapes) rest
    else written
  | _ => written

end CueScript.Shell
