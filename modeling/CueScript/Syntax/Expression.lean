import CueScript.Syntax.Name

/-!
# CueScript.Syntax.Expression — the expressions of the script language

1. **Tree**: an `Expression` is one of three forms, possibly negated.
2. **Reading**: `Expression.parse` takes a padded text with at most one `not ` in front. The forms
   are tried in a fixed order: `$(…)` before `$…`, then `defined …`.
-/

namespace CueScript

/-! ## Tree -/

/-- What an expression asks for once a leading `not` is taken off. -/
inductive Form where
  /-- The result of a command line: `$(line)`. -/
  | command (line : String)
  /-- A variable, true when its value is: `$name`. -/
  | lookup (name : String)
  /-- Whether a variable is bound: `defined $name`. -/
  | defined (name : String)
deriving Repr, DecidableEq

/-- A form, negated when `not` stands in front of it. -/
structure Expression where
  negated : Bool
  form : Form
deriving Repr, DecidableEq

namespace Form

/-- The name of a form in printed parse trees. -/
def tag : Form → String
  | command _ => "CommandSub"
  | lookup _ => "Variable"
  | defined _ => "Defined"

/-- The command line or the variable name that a form holds. -/
def payload : Form → String
  | command s | lookup s | defined s => s

end Form

/-- The command line that an expression asks to run, if it is a command substitution. -/
def Expression.commandLine? (e : Expression) : Option String :=
  match e.form with
  | .command line => some line
  | _ => none

/-! ## Reading -/

namespace Syntax

/-- Reads a form. `whole` is the whole text, which an error reports. -/
def parseForm (text : List Char) (whole : String) : Except SyntaxError Form :=
  match "$(".toList.isPrefixOf? text with
  | some inner =>
    match [')'].isSuffixOf? inner with
    | some line => .ok (.command (String.ofList line))
    | none => .error (.unterminatedSubstitution whole)
  | none =>
    if ['$'].isPrefixOf text || ['"', '$'].isPrefixOf text then
      (parseName (String.ofList text)).map .lookup
    else
      match "defined ".toList.isPrefixOf? text with
      | some token => (parseName (String.ofList token)).map .defined
      | none => .error (.expression whole)

end Syntax

/-- Reads an expression: outer blanks are ignored, and one `not ` may stand before the form. -/
def Expression.parse (input : String) : Except SyntaxError Expression :=
  let text := Text.trim input.toList
  match "not ".toList.isPrefixOf? text with
  | some rest => (Syntax.parseForm rest input).map fun form => ⟨true, form⟩
  | none => (Syntax.parseForm text input).map fun form => ⟨false, form⟩

end CueScript
