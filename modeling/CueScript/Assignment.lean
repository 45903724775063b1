import CueScript.Evaluation
import CueScript.Syntax.Targets

/-!
# CueScript.Assignment — binding variables to the results of an expression

The targets are read first, then the right-hand side is evaluated in the old environment, then the
targets are bound from left to right. Nothing is bound when one of the first two steps fails. A
false logical result does not make an assignment fail.
-/

namespace CueScript

/-- Binds targets to the results of an expression. -/
def Targets.bind (targets : Targets) (r : Evaluation) (env : Environment) : Environment :=
  match targets with
  | .value name => env.set name r.value
  | .logicalAndValue ok name => (env.set ok (.bool r.logical)).set name r.value

/-- Assigns the results of `rhs` to the targets that `lhs` spells. The environment is returned as it
is after the assignment, successful or not. -/
def assign (host : Host) (env : Environment) (lhs : String) (rhs : Value) :
    Traced (Environment × Except SyntaxError Unit) :=
  match Targets.parse lhs with
  | .error e => .quiet (env, .error e)
  | .ok targets =>
    (evaluate host env rhs).map fun
      | .error e => (env, .error e)
      | .ok r => (targets.bind r env, .ok ())

end CueScript
