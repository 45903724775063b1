import CueScript.Text.Blank

/-!
# CueScript.Syntax.Cursor — a position that moves over a text

1. **Cursor**: a text with the number of characters already passed; the position may lie past the
   end, where nothing is left.
2. **Steps**: `skipBlanks`, `eatKeyword` and `readToken` look only at what is left and move the
   cursor forward by what they accept; a refused step leaves it where it was.
-/

namespace CueScript.Syntax

/-- A text and the count of its characters that lie behind the cursor. -/
structure Cursor where
  text : List Char
  pos : Nat
deriving Repr, DecidableEq

namespace Cursor

def start (text : List Char) : Cursor :=
  ⟨text, 0⟩

/-- What is left of the text; nothing when the position is past the end. -/
def rest (c : Cursor) : List Char :=
  c.text.drop c.pos

def advance (c : Cursor) (n : Nat) : Cursor :=
  ⟨c.text, c.pos + n⟩

@[simp] theorem rest_start (s : List Char) : (start s).rest = s := rfl

@[simp] theorem rest_advance (c : Cursor) (n : Nat) : (c.advance n).rest = c.rest.drop n := by
  simp [rest, advance]

@[simp] theorem advance_zero (c : Cursor) : c.advance 0 = c := rfl

/-! ## Steps -/

/-- Passes all blanks at the cursor; tells whether there was one. -/
def skipBlanks (c : Cursor) : Bool × Cursor :=
  let blanks := c.rest.takeWhile Text.isBlank
  (!blanks.isEmpty, c.advance blanks.length)

/-- Passes `keyword` when it stands at the cursor with a blank behind it. The blank is left. -/
def eatKeyword (keyword : List Char) (c : Cursor) : Bool × Cursor :=
  match keyword.isPrefixOf? c.rest with
  | some (next :: _) => if Text.isBlank next then (true, c.advance keyword.length) else (false, c)
  | _ => (false, c)

/-- A character that may stand in a variable token without braces. -/
def isTokenChar (c : Char) : Bool :=
  !Text.isBlank c && c != ','

/-- The variable token that a text starts with: `${` up to and with the first `}`, or `$` and the
run of characters that are neither blank nor a comma. A token that names nothing is refused. -/
def tokenAt? : List Char → Option (List Char)
  | '$' :: '{' :: inner =>
    let body := inner.takeWhile (· != '}')
    if body.length < inner.length ∧ body ≠ [] then some ('$' :: '{' :: body ++ ['}']) else none
  | '$' :: inner =>
    let body := inner.takeWhile isTokenChar
    if body ≠ [] then some ('$' :: body) else none
  | _ => none

/-- Passes the variable token at the cursor and returns it. -/
def readToken (c : Cursor) : Option (List Char) × Cursor :=
  match tokenAt? c.rest with
  | some token => (some token, c.advance token.length)
  | none => (none, c)

end Cursor

end CueScript.Syntax
