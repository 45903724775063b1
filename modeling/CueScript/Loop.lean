import CueScript.Evaluation
import CueScript.Syntax.Json

/-!
# CueScript.Loop — what a loop runs over

With one control variable a loop runs over the words of a text, and not at all over other values.
With two it runs over the entries of a mapping, and nothing else will do. The logical result of the
expression plays no part.
-/

namespace CueScript

/-- What the control variables are bound to on one turn. -/
inductive LoopItem where
  /-- A value for the one variable. -/
  | scalar (value : Value)
  /-- A key and a value for the two variables. -/
  | pair (key : String) (value : Value)
deriving Repr, DecidableEq

/-- The control variables of a loop and what they are bound to, turn by turn. -/
structure Loop where
  vars : ControlVars
  items : List LoopItem
deriving Repr, DecidableEq

/-- The items of a value for the given control variables. `expression` is reported when the value
cannot be taken apart. -/
def Loop.ofValue (vars : ControlVars) (expression : String) :
    Value → Except SyntaxError (List LoopItem) :=
  match vars with
  | .pair _ _ => fun
    | .mapping entries => .ok (entries.map fun e => .pair e.1 e.2)
    | other => .error (.destructure other.typeName expression)
  | .single _ => fun
    | .text s => .ok ((Text.words s.toList).map fun w => .scalar (.text (String.ofList w)))
    | _ => .ok []

def resolveLoop (host : Host) (env : Environment) (header : String) :
    Traced (Except SyntaxError Loop) :=
  match LoopHeader.parse header with
  | .error e => .quiet (.error e)
  | .ok h =>
    (evaluateText host env h.expression).map fun r => do
      let items ← Loop.ofValue h.vars h.expression (← r).value
      return ⟨h.vars, items⟩

/-- An item as a document; a pair is an array of two. -/
def LoopItem.toNode : LoopItem → Json.Node
  | .scalar value => value.toNode
  | .pair key value => .array [.ofString key, value.toNode]

def Loop.toNode (l : Loop) : Json.Node :=
  .ofMembers [("control_vars", l.vars.toNode), ("items", .array (l.items.map LoopItem.toNode))]

end CueScript
