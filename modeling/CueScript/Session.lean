import CueScript.Assignment
import CueScript.Condition
import CueScript.Loop

/-!
# CueScript.Session — runs of operations on one environment

A session applies operations one after the other. The environment goes from each operation to the
next; an operation that fails leaves it as it is, and the session goes on.
-/

namespace CueScript

/-- What a script can ask for. -/
inductive Operation where
  /-- Evaluate a value. -/
  | evaluate (value : Value)
  /-- Evaluate the expression that a text spells. -/
  | evaluateText (text : String)
  /-- Evaluate a parsed expression. -/
  | evaluateParsed (expression : Expression)
  /-- Resolve a loop header. -/
  | resolveLoop (header : String)
  /-- Choose between a section and its alternative. -/
  | resolveCondition (ifSection : Section String) (next : Option (Section String))
  /-- Assign the results of an expression. -/
  | assign (lhs : String) (rhs : Value)
  /-- Bind a variable. -/
  | set (name : String) (value : Value)
deriving Repr, DecidableEq

/-- What an operation answers when it succeeds. -/
inductive Answer where
  | evaluation (e : Evaluation)
  | loop (l : Loop)
  | branch (b : Branch String)
  | done
deriving Repr, DecidableEq

/-- Applies an operation: the environment after it and its answer. -/
def Operation.run (host : Host) (env : Environment) :
    Operation → Traced (Environment × Except SyntaxError Answer)
  | .evaluate value => (CueScript.evaluate host env value).map fun r => (env, r.map .evaluation)
  | .evaluateText text => (CueScript.evaluateText host env text).map fun r => (env, r.map .evaluation)
  | .evaluateParsed e => (e.evaluate host env).map fun r => (env, .ok (.evaluation r))
  | .resolveLoop header => (CueScript.resolveLoop host env header).map fun r => (env, r.map .loop)
  | .resolveCondition ifSection next =>
    (CueScript.resolveCondition host env ifSection next).map fun r => (env, r.map .branch)
  | .assign lhs rhs => (CueScript.assign host env lhs rhs).map fun r => (r.1, r.2.map fun _ => .done)
  | .set name value => .quiet (env.set name value, .ok .done)

/-- Applies operations in order: the environment at the end and all answers. -/
def runSession (host : Host) (env : Environment) :
    List Operation → Traced (Environment × List (Except SyntaxError Answer))
  | [] => .quiet (env, [])
  | op :: ops =>
    let first := op.run host env
    let others := runSession host first.result.1 ops
    ⟨(others.result.1, first.result.2 :: others.result.2), first.calls ++ others.calls⟩

end CueScript
