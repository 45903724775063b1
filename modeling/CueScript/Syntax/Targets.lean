import CueScript.Syntax.Name

/-!
# CueScript.Syntax.Targets — the left-hand side of an assignment

`$x` receives the value of an expression; `$ok, $x` receives its logical result and its value.
-/

namespace CueScript

/-- The variables that an assignment binds. -/
inductive Targets where
  /-- One variable, for the value. -/
  | value (name : String)
  /-- A variable for the logical result and one for the value. -/
  | logicalAndValue (logical value : String)
deriving Repr, DecidableEq

namespace Targets

/-- The names in the order in which they are written and bound. -/
def names : Targets → List String
  | value name => [name]
  | logicalAndValue ok name => [ok, name]

/-- The name of the shape in printed parse trees. -/
def tag : Targets → String
  | value _ => "Value"
  | logicalAndValue _ _ => "LogicalAndValue"

/-- Reads one target, or two with a comma between them. A second comma is refused before any name
is looked at; of two wrong names the first is reported. -/
def parse (lhs : String) : Except SyntaxError Targets :=
  match Text.cutAt? ',' lhs.toList with
  | none => (Syntax.parseName lhs).map value
  | some (l, r) =>
    if ',' ∈ r then .error (.tooManyTargets lhs)
    else do
      let ok ← Syntax.parseName (String.ofList l)
      let name ← Syntax.parseName (String.ofList r)
      return logicalAndValue ok name

end Targets

end CueScript
