import CueScript.Host.Basic
import CueScript.Host.Config
import CueScript.Text.Utf8

/-!
# CueScript.Host.Process — a host that runs command lines as processes

1. **Launch**: the shell of the configuration is started with its arguments and one more, a script
   that first joins the error stream to the output stream. Variables that are texts or truth values
   and have names that processes can take are exported, in the order of their names.
2. **Completion**: the two streams are decoded one behind the other, line ends at the end are
   dropped if the configuration says so, and a process without an exit code counts as -1.
3. **Host**: an `Executor` starts programs; the host is built from it and from nothing else.
-/

namespace CueScript

/-! ## Launch -/

/-- A program that is ready to be started. Standard input is empty. -/
structure Launch where
  program : String
  args : List String
  /-- The working directory, inherited when it is not set. -/
  cwd : Option String
  /-- The variables that are added to the inherited ones, in the order of their names. -/
  overlay : List (String × String)
deriving Repr, DecidableEq

/-- Names start with a letter or an underscore and go on with those and digits, all of ASCII. -/
def isExportableName (name : String) : Bool :=
  match name.toList with
  | [] => false
  | c :: cs => (c.isAlpha || c == '_') && cs.all fun d => d.isAlphanum || d == '_'

/-- The text of a value that processes can take. -/
def Value.exported? : Value → Option String
  | .text s => some s
  | .bool true => some "true"
  | .bool false => some "false"
  | _ => none

/-- The variables of an environment that processes can take. -/
def Environment.exports (env : Environment) : List (String × String) :=
  (env.toList.filterMap fun v =>
    if isExportableName v.1 then (v.2.exported?).map fun s => (v.1, s) else none).mergeSort
    fun a b => a.1 ≤ b.1

/-- What the script starts with: the error stream goes where the output goes. -/
def joinStreams : String := "exec 2>&1\n"

/-- The program to start for a command line. -/
def Config.launch (config : Config) (line : String) (env : Environment) : Launch where
  program := config.shell
  args := config.shellArgs ++ [joinStreams ++ line]
  cwd := config.cwd
  overlay := if config.exportVariables then env.exports else []

/-! ## Completion -/

/-- A process that has ended. -/
structure Finished where
  /-- The exit code; a process that was killed has none. -/
  code : Option Int32
  stdout : List UInt8
  stderr : List UInt8
deriving Repr, DecidableEq

/-- Drops the line feeds and carriage returns at the end. -/
def dropLineEnds (s : List Char) : List Char :=
  (s.reverse.dropWhile fun c => c == '\n' || c == '\r').reverse

def Config.outputOf (config : Config) (f : Finished) : String :=
  let written := Text.Utf8.decodeLossy f.stdout ++ Text.Utf8.decodeLossy f.stderr
  String.ofList (if config.stripTrailingNewlines then dropLineEnds written else written)

/-- The answer of the host when a process has ended. -/
def Config.complete (config : Config) (mode : CommandMode) (f : Finished) :
    Except Fault CommandOutcome :=
  let code := f.code.getD (-1)
  if mode = .checked ∧ code ≠ 0 then .error (.nonZeroExit code (config.outputOf f))
  else .ok ⟨code, config.outputOf f⟩

/-! ## Host -/

/-- Starts programs and waits for them to end; the error says why one could not be started. -/
abbrev Executor := Launch → Except String Finished

/-- The host that runs command lines through an executor. -/
def Host.process (execute : Executor) (config : Config) : Host := fun mode line env =>
  match execute (config.launch line env) with
  | .error reason => .error (.spawn config.shell reason)
  | .ok finished => config.complete mode finished

end CueScript
