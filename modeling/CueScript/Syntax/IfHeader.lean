import CueScript.Syntax.Error
import CueScript.Text.Blank

/-!
# CueScript.Syntax.IfHeader — the headers of conditional sections

`if EXPR` opens a conditional section; a section whose header is exactly `else` is its alternative.
-/

namespace CueScript.Syntax

/-- The condition of an `if` header: what follows `if`, without the blanks around it. No blank is
asked for after `if`. -/
def ifCondition (header : String) : Except SyntaxError String :=
  match ['i', 'f'].isPrefixOf? header.toList with
  | some condition => .ok (String.ofList (Text.trim condition))
  | none => .error (.ifHeader header)

/-- Whether a header marks an alternative section. -/
def isElse (header : String) : Bool :=
  header == "else"

end CueScript.Syntax
