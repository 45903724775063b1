import CueScript.Json.Layout
import CueScript.Syntax.Expression
import CueScript.Syntax.LoopHeader
import CueScript.Syntax.Targets

/-!
# CueScript.Syntax.Json — parse trees as JSON documents

A form is an object with one member, named by its tag. A loop header lists its control variables. It
is also printed as a table, whose keys are in order. An assignment with one target holds its name,
one with two targets the list of names.
-/

namespace CueScript

def Expression.toNode (e : Expression) : Json.Node :=
  .ofMembers [("negated", .bool e.negated),
    ("expr", .ofMembers [(e.form.tag, .ofString e.form.payload)])]

def ControlVars.toNode (vars : ControlVars) : Json.Node :=
  .array (vars.names.map .ofString)

def LoopHeader.toNode (h : LoopHeader) : Json.Node :=
  .ofMembers [("control_vars", h.vars.toNode), ("expression", .ofString h.expression)]

/-- The loop header as a table, made key by key. -/
def LoopHeader.toTable (h : LoopHeader) : Json.Node :=
  .ofTable [("control_vars", .array (h.vars.names.map .ofString)),
    ("expression", .ofString h.expression)]

def Targets.toNode (t : Targets) : Json.Node :=
  .ofMembers [(t.tag,
    match t with
    | .value name => .ofString name
    | .logicalAndValue ok name => .array [.ofString ok, .ofString name])]

end CueScript
