import CueScript.Evaluation
import CueScript.Syntax.IfHeader

/-!
# CueScript.Condition — choosing between a section and its alternative

An `if` section is followed by the section that comes next in the script, if there is one. When that
section is an `else`, it is skipped afterwards, whichever of the two was taken.
-/

namespace CueScript

/-- A section of a script: its header line and its body. -/
structure Section (β : Type) where
  header : String
  body : β
deriving Repr, DecidableEq

/-- Which side of a condition applies. -/
inductive BranchKind where
  | onTrue
  | onFalse
deriving Repr, DecidableEq

namespace BranchKind

def ofLogical (b : Bool) : BranchKind :=
  if b then onTrue else onFalse

/-- The number of a side in reports. -/
def index : BranchKind → Nat
  | onTrue => 0
  | onFalse => 1

end BranchKind

/-- The side that applies, whether the next section is to be stepped over, and the body to run. -/
structure Branch (β : Type) where
  kind : BranchKind
  skipNext : Bool
  body : Option β
deriving Repr, DecidableEq

variable {β : Type}

/-- Chooses between a section and the `else` section behind it. Only the logical result of the
condition counts. -/
def resolveCondition (host : Host) (env : Environment) (ifSection : Section β)
    (next : Option (Section β)) : Traced (Except SyntaxError (Branch β)) :=
  let alternative := next.filter fun s => Syntax.isElse s.header
  match Syntax.ifCondition ifSection.header with
  | .error e => .quiet (.error e)
  | .ok condition =>
    (evaluateText host env condition).map fun r => r.map fun evaluation =>
      { kind := .ofLogical evaluation.logical
        skipNext := alternative.isSome
        body := if evaluation.logical then some ifSection.body else alternative.map (·.body) }

def Branch.toNode (b : Branch String) : Json.Node :=
  .ofMembers [("branch", .ofInt b.kind.index), ("skip_next", .bool b.skipNext),
    ("taken", (b.body.map .ofString).getD .null)]

end CueScript
