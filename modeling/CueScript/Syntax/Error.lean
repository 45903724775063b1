/-!
# CueScript.Syntax.Error — malformed constructs

A `SyntaxError` names the cause and carries the offending text as it was written; `message` is the
only place with wording.
-/

namespace CueScript

/-- Why a construct of the script language was refused. Each cause carries the text at fault. -/
inductive SyntaxError where
  /-- The token does not spell a variable. -/
  | variableName (token : String)
  /-- The text has none of the forms of an expression. -/
  | expression (text : String)
  /-- A command substitution is opened and not closed. -/
  | unterminatedSubstitution (text : String)
  /-- The text is no loop header. -/
  | forHeader (header : String)
  /-- Two control variables were asked for and the value of the expression is no mapping. -/
  | destructure (typeName : String) (expression : String)
  /-- More than two names stand on the left of an assignment. -/
  | tooManyTargets (targets : String)
  /-- The header does not open with `if`. -/
  | ifHeader (header : String)
deriving Repr, DecidableEq

namespace SyntaxError

/-- The report for a reader: a fixed phrase, then the offending text. -/
def message : SyntaxError → String
  | variableName t => "Not a proper variable name: " ++ t
  | expression t => "Not a valid expression: " ++ t
  | unterminatedSubstitution t => "Unterminated command substitution: " ++ t
  | forHeader h => "For loop call must be in form 'for $var in expression', got: " ++ h
  | destructure ty e => "Can't expand " ++ ty ++ " to two control variables: " ++ e
  | tooManyTargets t => "Max two variables allowed on left side, got: " ++ t
  | ifHeader h => "Not an if clause: " ++ h

def text : SyntaxError → String
  | variableName t | expression t | unterminatedSubstitution t => t
  | forHeader t | destructure _ t | tooManyTargets t | ifHeader t => t

end SyntaxError

end CueScript
