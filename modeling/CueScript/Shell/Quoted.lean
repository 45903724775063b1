import CueScript.Shell.Tree

/-!
# CueScript.Shell.Quoted — texts in the reports of programs

Two ways to quote a text of bytes: `asWord` writes it so that a shell would read it back, and only
with quotes where they are needed; `asReport` always puts quotes around it. Both write bytes outside
of printable ASCII as escapes.
-/

namespace CueScript.Shell

/-- Whether a byte stands for itself inside quotes. -/
def isPrintable (c : Char) : Bool :=
  ' ' ≤ c && c ≤ '~'

/-- A byte that is not printable, as an escape: a letter or three octal digits. -/
def byteEscape (c : Char) : Text :=
  match c with
  | '\x07' => ['\\', 'a']
  | '\x08' => ['\\', 'b']
  | '\t' => ['\\', 't']
  | '\n' => ['\\', 'n']
  | '\x0b' => ['\\', 'v']
  | '\x0c' => ['\\', 'f']
  | '\r' => ['\\', 'r']
  | c =>
    let digit (n : Nat) : Char := Char.ofNat (48 + n % 8)
    ['\\', digit (c.toNat / 64), digit (c.toNat / 8), digit c.toNat]

/-- A text between single quotes, with escapes. -/
def asReport (s : Text) : Text :=
  '\'' :: (s.flatMap fun c =>
    if c = '\'' ∨ c = '\\' then ['\\', c]
    else if isPrintable c then [c] else byteEscape c) ++ ['\'']

/-- The characters that need no quotes anywhere in a word. -/
def isPlainInWords (c : Char) : Bool :=
  c.isAlphanum || c ∈ ['%', '+', ',', '-', '.', '/', '@', ']', '_', '#', '~', '\x7b', '\x7d']

/-- Whether a text needs quotes to be one word of a shell. -/
def needsQuotes (s : Text) : Bool :=
  !s.all isPlainInWords || s.isEmpty || [['\x7b'], ['\x7d']].contains s
    || s.head? == some '#' || s.head? == some '~'

/-- The characters of a quoted word and the quote behind them; `escaping` tells whether escapes are
open. -/
def wordBody (escaping : Bool) : Text → Text
  | [] => ['\'']
  | c :: s =>
    if isPrintable c then
      (if escaping then ['\'', '\''] else [])
        ++ (if c = '\'' then ['\'', '\\', '\'', '\''] else [c]) ++ wordBody false s
    else (if escaping then [] else ['\'', '$', '\'']) ++ byteEscape c ++ wordBody true s

/-- A text as a word of a shell, with quotes where they are needed. -/
def asWord (s : Text) : Text :=
  if !needsQuotes s then s
  else if s.contains '\'' ∧ s.all fun c => isPrintable c ∧ c ∉ ['"', '$', '\\', Char.ofNat 96, '!'] then
    '"' :: s ++ ['"']
  else '\'' :: wordBody false s

end CueScript.Shell
