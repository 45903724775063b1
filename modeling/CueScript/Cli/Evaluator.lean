import CueScript.Assignment
import CueScript.Cli.Arguments
import CueScript.Condition
import CueScript.Host.Process
import CueScript.Loop
import CueScript.World

/-!
# CueScript.Cli.Evaluator — evaluating one construct from the command line

The configuration is read first, then the file of variables, then the pairs of the command line, and
then the task is run on a process host. The result is printed as a document with sorted keys and
indented lines. The first failure ends the run.
-/

namespace CueScript.Cli

inductive Failure where
  | unreadableConfig (path : String) (reason : String)
  | invalidConfig
  | unreadableVariables (path : String) (reason : String)
  | notVariables (path : String)
  | malformedPair (pair : String)
  | malformed (e : SyntaxError)
deriving Repr, DecidableEq

/-- The report for a reader. The cause of an unreadable configuration is named with it and behind
it. -/
def Failure.message : Failure → String
  | unreadableConfig path reason => "cannot read config " ++ path ++ ": " ++ reason ++ ": " ++ reason
  | invalidConfig => "invalid config"
  | unreadableVariables path reason => "cannot read " ++ path ++ ": " ++ reason
  | notVariables path => path ++ " is not a JSON object of variables"
  | malformedPair pair => "--var expects NAME=VALUE, got: " ++ pair
  | malformed e => e.message

/-- How a program ends: with its output, with a failure, or because it was not used properly. -/
inductive Ending where
  | success (stdout : String)
  | failure (message : String)
  | usage
deriving Repr, DecidableEq

/-! ## Loading -/

/-- Reads files: the bytes under a path, or why there are none. -/
abbrev Files := String → Except String (List UInt8)

def readText (files : Files) (path : String) : Except String String := do
  match Text.Utf8.decode? (← files path) with
  | some text => return String.ofList text
  | none => .error "stream did not contain valid UTF-8"

/-- The configuration in a file, or the default one without a file. -/
def loadConfig (files : Files) : Option String → Except Failure Config
  | none => .ok .default
  | some path =>
    match readText files path with
    | .error reason => .error (.unreadableConfig path reason)
    | .ok text =>
      match Config.ofToml? text with
      | some config => .ok config
      | none => .error .invalidConfig

/-- Binds pairs of a name and a text, written with `=` between them, one after the other. -/
def bindPairs : Environment → List String → Except Failure Environment
  | env, [] => .ok env
  | env, pair :: pairs =>
    match Text.cutAt? '=' pair.toList with
    | some (name, value) => bindPairs (env.set (String.ofList name) (.text (String.ofList value))) pairs
    | none => .error (.malformedPair pair)

/-- The variables in a file, with pairs bound on top of them. -/
def loadEnvironment (files : Files) (varsFile : Option String) (pairs : List String) :
    Except Failure Environment :=
  match varsFile with
  | none => bindPairs .empty pairs
  | some path =>
    match readText files path with
    | .error reason => .error (.unreadableVariables path reason)
    | .ok text =>
      match Environment.ofJson? text with
      | some env => bindPairs env pairs
      | none => .error (.notVariables path)

/-! ## Running -/

/-- The document that a task prints. -/
def Task.run (host : Host) (env : Environment) : Task → Except SyntaxError Json.Node
  | .eval expression => (evaluateText host env expression).result.map Evaluation.toNode
  | .loop header => (resolveLoop host env header).result.map Loop.toNode
  | .condition header hasElse =>
    let next := if hasElse then some ⟨"else", "else"⟩ else none
    (resolveCondition host env ⟨header, "if"⟩ next).result.map Branch.toNode
  | .assign targets expression =>
    let (env, r) := (CueScript.assign host env targets (.text expression)).result
    r.map fun _ => env.toNode

/-- Loads what the options name and runs a task. -/
def runTask (execute : Executor) (files : Files) (options : Options) (task : Task) :
    Except Failure Json.Node := do
  let config ← loadConfig files options.configFile
  let env ← loadEnvironment files options.varsFile options.pairs
  match task.run (Host.process execute config) env with
  | .ok node => .ok node
  | .error e => .error (.malformed e)

/-- The program: from its arguments to its ending. -/
def evaluator (execute : Executor) (files : Files) (args : List String) : Ending :=
  match invocation? args with
  | none => .usage
  | some .version => .success "assistant-eval 0.1.0\n"
  | some (.run options task) =>
    match runTask execute files options task with
    | .ok node => .success (node.prettySorted ++ "\n")
    | .error failure => .failure failure.message

end CueScript.Cli
