import CueScript.Host.Process
import CueScript.Shell.Execution

/-!
# CueScript.Shell.Executor — running launches in a world

`World.executor` carries a launch out inside a world: the working directory is entered first, then the
program is looked up and run with what it inherits and what the launch adds. Its standard input is
empty. Every launch sees the world as it was given; what it changes there ends with it.
-/

namespace CueScript

open Shell

/-! ## Start -/

def inheritedVariables : List (String × String) :=
  [("HOME", "/root"),
    ("PATH", "/usr/local/sbin:/usr/local/bin:/usr/sbin:/usr/bin:/sbin:/bin")]

/-- Whether a text can not be handed to the system. -/
def hasZero (s : String) : Bool :=
  s.toList.contains '\x00'

/-- Whether a launch holds a text that can not be handed to the system. -/
def Launch.hasZero (l : Launch) : Bool :=
  CueScript.hasZero l.program || l.args.any CueScript.hasZero || l.cwd.any CueScript.hasZero
    || l.overlay.any fun v => CueScript.hasZero v.1 || CueScript.hasZero v.2

/-- The number of bytes that an argument or a variable with its name must not reach. -/
def textBound : Nat := 131072

/-- Whether a launch holds a text that is too long for the system. -/
def Launch.tooLong (l : Launch) : Bool :=
  l.args.any (textBound ≤ ·.utf8ByteSize)
    || l.overlay.any fun v => textBound ≤ v.1.utf8ByteSize + v.2.utf8ByteSize + 1

/-- The variables that a launched program gets, in the order of their names. -/
def Launch.environment (l : Launch) : List (Text × Text) :=
  ((Bindings.ofPairs (inheritedVariables ++ l.overlay)).mergeSort fun a b => a.1 ≤ b.1).map fun v =>
    (toBytes v.1, toBytes v.2)

/-- The world of a process that is started in a directory. -/
def World.enter (w : World) : Option String → Except OsError World
  | none => .ok w
  | some path => do
    match ← w.find path with
    | (place, .directory) => return { w with cwd := place }
    | _ => .error .notDirectory

/-- The number of the process that starts programs. -/
def launcher : Nat := 999

/-- The state of a process before its program runs. -/
def startProcess (place : List String) : Process where
  pid := launcher
  shell := launcher
  ancestors := [launcher - 1]
  name := []
  command := none
  args := []
  optionIndex := 1
  optionOffset := none
  vars := []
  hidden := []
  functions := []
  aliases := []
  hashed := []
  settings := []
  status := 0
  line := 0
  inputLine := 1
  outerLine := none
  calls := 0
  loops := 0
  skip := .none
  substituted := 0
  saved := none
  traps := []
  ignored := []
  pending := []
  jobs := []
  lastJob := none
  streams := []
  traceStream := none
  isTracing := false
  place
  directory := none
  mask := 0o22
  limits := []
  output := []

/-- The state in which a program is started, with its three streams. -/
def startMachine (w : World) : Machine :=
  let s := System.ofWorld w
  let (input, s) := s.addFile ⟨.device .null, 0, true, false, false⟩
  let (output, s) := s.addFile ⟨.stdout, 0, true, true, false⟩
  let (errors, s) := s.addFile ⟨.stderr, 0, true, true, false⟩
  { process := { startProcess w.cwd with streams := [(0, input), (1, output), (2, errors)] }
    system := s
    tasks := []
    ended := []
    patience := none }

/-! ## End -/

/-- How deep the commands of a script may nest. -/
def nestingBound : Nat := 20000

/-- What a program leaves when it has ended. -/
def Shell.Machine.finished (m : Machine) (ending : Ending) : Finished where
  code := match ending with
    | .exited n => some (Int32.ofNat (n % 256))
    | .killed _ => none
  stdout := bytesOf m.system.out.reverse.flatten
  stderr := bytesOf m.system.err.reverse.flatten

/-- Runs a program to its end, and to the end of what it has left in the background. -/
def runToEnd (m : Machine) (program : String) (name : Text) (args : List Text)
    (environment : List (Text × Text)) : Finished :=
  let ev := evaluator nestingBound
  let ended (n : Nat) : Ending := .exited n
  let (ending, m) := match runProgram ev programBound program name args environment m with
    | .ok _ m => (ended m.process.status, m)
    | .error (.killed signal) m => (.killed signal, m)
    | .error _ m => (ended m.process.status, m)
  match ev.awaitAll m with
  | .ok _ m | .error _ m => m.finished ending

def World.executor (w : World) : Executor := fun launch =>
  if launch.hasZero then .error "nul byte found in provided data"
  else
    let environment := launch.environment
    let started : Except OsError Finished := do
      let w ← w.enter launch.cwd
      let name := toBytes launch.program
      let program ← startedProgram w environment name
      if launch.tooLong then throw .argumentsTooLong
      return runToEnd (startMachine w) program name (launch.args.map toBytes) environment
    match started with
    | .ok finished => .ok finished
    | .error e => .error e.message

end CueScript
