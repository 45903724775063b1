import CueScript.Syntax.Error
import CueScript.Text.Affix
import CueScript.Text.Blank

/-!
# CueScript.Syntax.Name — from the spelling of a variable to its name

`$x`, `${x}`, `"$x"`, `'${x}'` and padded forms of them spell the variable `x`. One layer of quotes
and one layer of braces come off, each end judged on its own, so `"$x` spells `x` as well.
-/

namespace CueScript.Syntax

/-- The quotes that may stand around a variable. -/
def isQuote (c : Char) : Bool :=
  c == '"' || c == '\''

/-- The name that a token spells: without padding, one layer of quotes, `$`, one layer of braces. -/
def nameOf? (token : List Char) : Option (List Char) :=
  match Text.peel isQuote isQuote (Text.trim token) with
  | '$' :: inner => some (Text.peel (· == '{') (· == '}') inner)
  | _ => none

/-- The name that a token spells, or the token as it was given in an error. -/
def parseName (token : String) : Except SyntaxError String :=
  match nameOf? token.toList with
  | some name => .ok (String.ofList name)
  | none => .error (.variableName token)

end CueScript.Syntax
