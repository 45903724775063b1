import CueScript.Syntax.Expression
import CueScript.Traced

/-!
# CueScript.Evaluation — expressions have a logical result and a value

1. **Forms**: a variable is as true as its value and keeps the value only when it is true; `defined`
   is true of every bound variable; a command is true when it succeeds, and its output is its value
   in either case. A negation turns the logical result over and leaves the value alone.
2. **Texts and literals**: a text is read as an expression; any other value stands for itself.
-/

namespace CueScript

/-- The two results of an expression. -/
structure Evaluation where
  logical : Bool
  value : Value
deriving Repr, DecidableEq

/-- What an answer of a host means for an expression: whether the command succeeded, and what it
wrote. A fault is a failed command. -/
def observe : Except Fault CommandOutcome → Evaluation
  | .ok outcome => ⟨outcome.succeeded, .text outcome.output⟩
  | .error fault => ⟨false, .text fault.output⟩

/-! ## Forms -/

/-- The results of a form. Only a command substitution calls the host. -/
def Form.evaluate (host : Host) (env : Environment) : Form → Traced Evaluation
  | .command line => ⟨observe (host .unchecked line env), [⟨.unchecked, line⟩]⟩
  | .lookup name =>
    match env.get? name with
    | some value => .quiet (if value.isTruthy then ⟨true, value⟩ else ⟨false, .empty⟩)
    | none => .quiet ⟨false, .empty⟩
  | .defined name => .quiet ⟨env.contains name, (env.get? name).getD .empty⟩

def Expression.evaluate (host : Host) (env : Environment) (e : Expression) : Traced Evaluation :=
  (e.form.evaluate host env).map fun r => ⟨r.logical != e.negated, r.value⟩

/-! ## Texts and literals -/

/-- The results of the expression that a text spells. -/
def evaluateText (host : Host) (env : Environment) (text : String) :
    Traced (Except SyntaxError Evaluation) :=
  match Expression.parse text with
  | .error e => .quiet (.error e)
  | .ok expression => (expression.evaluate host env).map .ok

/-- The results of a value: a text is an expression, all else is a literal. -/
def evaluate (host : Host) (env : Environment) : Value → Traced (Except SyntaxError Evaluation)
  | .text s => evaluateText host env s
  | literal => .quiet (.ok ⟨literal.isTruthy, literal⟩)

def Evaluation.toNode (e : Evaluation) : Json.Node :=
  .ofMembers [("logical", .bool e.logical), ("value", e.value.toNode)]

end CueScript
