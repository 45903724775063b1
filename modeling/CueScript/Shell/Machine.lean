import CueScript.Shell.Setting
import CueScript.Shell.Signal
import CueScript.Shell.System
import CueScript.Shell.Tree

/-!
# CueScript.Shell.Machine — the state of running shells

1. **Processes**: a process has variables, arguments, options and streams of its own.
2. **Machines**: the running process, the processes that still wait to run, those that have ended,
   and the system.
3. **Actions** change a machine and may stop; what stops them says how far out it goes.
-/

namespace CueScript.Shell

/-! ## Processes -/

/-- A variable: its value, if it has one, whether programs get it, whether it may change, and whether
it keeps its place when it is taken away. -/
structure Variable where
  value : Option Text
  exported : Bool
  constant : Bool
  fixed : Bool
deriving Repr, DecidableEq

/-- What is put back when a function or a command with assignments ends. -/
inductive Hidden where
  | settings (old : List Setting)
  | value (name : Text) (old : Variable)
  /-- There was no such variable. -/
  | absent (name : Text)
deriving Repr, DecidableEq

/-- Commands that are passed over. -/
inductive Skip where
  | none
  /-- Those up to the end of so many loops. -/
  | leave (loops : Nat)
  /-- Those up to the next turn of the outermost of so many loops. -/
  | next (loops : Nat)
  /-- Those up to the end of the function or file, which has a status of its own. -/
  | function
  /-- As `function`, with the status as it is. -/
  | rest
deriving Repr, DecidableEq

inductive Ending where
  | exited (status : Nat)
  | killed (signal : Nat)
deriving Repr, DecidableEq

/-- The status that stands for the end of a process. -/
def Ending.status : Ending → Nat
  | exited n => n % 256
  | killed s => signalStatus s

/-- Processes that were started together in the background. -/
structure Job where
  number : Nat
  processes : List Nat
  /-- Whether somebody has asked for its status. -/
  isWaited : Bool
deriving Repr, DecidableEq

structure Limit where
  soft : Option Nat
  hard : Option Nat
deriving Repr, DecidableEq

/-- A process that runs a shell or a program. -/
structure Process where
  pid : Nat
  /-- The shell that this process belongs to. -/
  shell : Nat
  /-- The processes around this one, innermost first. -/
  ancestors : List Nat
  /-- The name under which the shell was started. -/
  name : Text
  /-- The command or file that is named in reports. -/
  command : Option Text
  args : List Text
  /-- The argument that options are read from next, and how far into the one before it. -/
  optionIndex : Nat
  optionOffset : Option Nat
  vars : List (Text × Variable)
  /-- What the running functions and commands hide, innermost first. -/
  hidden : List (List Hidden)
  functions : List (Text × Command)
  aliases : List (Text × Text)
  /-- Where programs were found, and whether that has to be looked at again. -/
  hashed : List (Text × Nat × Bool)
  settings : List Setting
  status : Nat
  /-- The line of the running command, and the last one that was read. -/
  line : Nat
  inputLine : Nat
  /-- The last line that was read of the input of the shell, while commands come from elsewhere. -/
  outerLine : Option Nat
  /-- The numbers of functions and loops that the running command lies in. -/
  calls : Nat
  loops : Nat
  skip : Skip
  /-- The status of the last command substitution in the running command. -/
  substituted : Nat
  /-- The status that counts when a trap ends the shell. -/
  saved : Option Nat
  /-- What is run when signals arrive; number 0 stands for the end of the shell. -/
  traps : List (Nat × Text)
  /-- Signals that are ignored from the start. -/
  ignored : List Nat
  /-- Signals that have arrived and wait for their traps. -/
  pending : List Nat
  jobs : List Job
  /-- The last process that was started in the background. -/
  lastJob : Option Nat
  /-- The open files of the process, under the numbers of its streams. -/
  streams : List (Nat × Nat)
  /-- Where commands are shown. -/
  traceStream : Option Nat
  isTracing : Bool
  /-- The working directory, and the path by which the shell knows it. -/
  place : List String
  directory : Option Text
  mask : Nat
  limits : List (Char × Limit)
  /-- What the running command has put out and not written yet, last part first. -/
  output : List Text

/-! ## Machines -/

inductive Access where
  | read
  /-- Writes, from an empty file on. -/
  | write
  /-- Writes, but not to a file that is there. -/
  | writeNew
  | append
  | readWrite
deriving Repr, DecidableEq

inductive RedirectTarget where
  | path (access : Access) (path : Text)
  | stream (n : Nat)
  | closed
  /-- A text, which is expanded when the redirection is carried out. -/
  | text (word : Word)

/-- A redirection whose target is known. -/
structure Redirection where
  stream : Nat
  target : RedirectTarget

/-- A command that runs in a process of its own, with redirections of its own. -/
structure Stage where
  pid : Nat
  redirects : List Redirection
  body : Command

/-- Processes that were started in the background and have not run yet. Each reads what the one
before it writes. -/
structure Task where
  owner : Nat
  /-- The state of the process that has started them. -/
  process : Process
  /-- Whether somebody looks at the status. -/
  isTested : Bool
  stages : List Stage
  /-- Whether they have taken so long that they were put off. -/
  isLong : Bool

/-- The running process with everything around it. -/
structure Machine where
  process : Process
  system : System
  tasks : List Task
  ended : List (Nat × Ending)
  /-- How many turns the loops of a process that is not waited for may take together. -/
  patience : Option Nat

/-! ## Actions -/

/-- Why an action stops early. -/
inductive Stop where
  /-- An error, which has been reported. -/
  | error
  /-- The shell is told to end. -/
  | exit
  /-- The last command of the process has ended. -/
  | finish
  /-- A program has run in place of the shell. -/
  | replaced
  | killed (signal : Nat)
  /-- A pipe has no more room. -/
  | full (pipe : Nat)
  /-- A pipe holds less than is needed. -/
  | starved (pipe : Nat)
  /-- A process that is not waited for takes too long. -/
  | tired
deriving Repr, DecidableEq

/-- An action of a process. -/
abbrev Exec := EStateM Stop Machine

def process : Exec Process := do
  return (← get).process

@[inline]
def alter (f : Process → Process) : Exec Unit :=
  modify fun m => { m with process := f m.process }

def setStatus (n : Nat) : Exec Unit :=
  alter fun p => { p with status := n }

/-- Runs an action and another one behind it, also when it stops. -/
@[specialize]
def andThenAlways {α : Type} (action : Exec α) (after : Exec Unit) : Exec α := do
  let a ← try action
    catch stop =>
      after
      throw stop
  after
  return a

/-- The world as the running process sees it. -/
def Machine.world (m : Machine) : World :=
  { m.system.world with cwd := m.process.place }

/-! ## Variables -/

namespace Process

def value? (p : Process) (name : Text) : Option Text :=
  (p.vars.lookup name).bind Variable.value

def isConstant (p : Process) (name : Text) : Bool :=
  (p.vars.lookup name).any Variable.constant

/-- The characters that separate fields. -/
def separators (p : Process) : Text :=
  (p.value? "IFS".toList).getD [' ', '\t', '\n']

def has (p : Process) (o : Setting) : Bool :=
  o ∈ p.settings

/-- The number of the chain of variables that a name belongs to. -/
def chainOf (slots : Nat) (name : Text) : Nat :=
  (16 * (name.headD '\x00').toNat + (name.map Char.toNat).foldl (· + ·) 0) % slots

/-- The variables in the order in which programs get them. -/
def chained (p : Process) : List (Text × Variable) :=
  (List.range 39).flatMap fun slot => p.vars.filter fun v => chainOf 39 v.1 = slot

/-- The variables that programs get, with their values. -/
def exports (p : Process) : List (Text × Text) :=
  p.chained.filterMap fun v =>
    if v.2.exported then v.2.value.map fun value => (v.1, value) else none

def hasTraps (p : Process) : Bool :=
  p.traps.any fun t => !t.2.isEmpty

end Process

/-! ## Streams -/

/-- Runs an operation of the system. What it refuses is given; a pipe that is full or empty stops the
process. -/
def onSystem {α : Type} (f : System → Except System.Refusal α × System) :
    Exec (Except OsError α) := do
  let m ← get
  let (r, system) := f m.system
  set { m with system }
  match r with
  | .ok a => return .ok a
  | .error (.refused e) => return .error e
  | .error (.full pipe) => throw (.full pipe)
  | .error (.starved pipe) => throw (.starved pipe)

def Process.stream? (p : Process) (n : Nat) : Option Nat :=
  p.streams.lookup n

def writeStream (n : Nat) (text : Text) : Exec (Except OsError Unit) := do
  if text.isEmpty then return .ok ()
  match (← process).stream? n with
  | some id => onSystem fun s => s.write id text
  | none => return .error .badDescriptor

/-- Writes to a stream as far as that is possible. -/
def writeAnyway (n : Nat) (text : Text) : Exec Unit := do
  let _ ← writeStream n text

/-- What can be read from a stream; nothing at its end. -/
def peekStream (n : Nat) : Exec (Except OsError Text) := do
  match (← process).stream? n with
  | some id => onSystem fun s => s.peek id
  | none => return .error .badDescriptor

/-- Takes characters off the front of what can be read from a stream. -/
def skipStream (n count : Nat) : Exec Unit := do
  match (← process).stream? n with
  | some id => modify fun m => { m with system := m.system.skip id count }
  | none => pure ()

/-! ## Reports -/

/-- Reports a problem on the error stream, behind the name of the shell, the line and the command. -/
def warn (text : Text) : Exec Unit := do
  let p ← process
  let parts := [p.name, natText p.line] ++ p.command.toList ++ [text ++ ['\n']]
  writeAnyway 2 (parts.intersperse ": ".toList).flatten

/-- Adds to what the running command puts out. -/
def put (text : Text) : Exec Unit :=
  alter fun p => { p with output := text :: p.output }

/-- Writes what the running command has put out; tells whether that was possible. -/
def flushOutput : Exec Bool := do
  let text := (← process).output.reverse.flatten
  alter fun p => { p with output := [] }
  return (← writeStream 1 text).isOk

/-- Reports a problem that ends the running command, with a status. -/
def failWith {α : Type} (status : Nat) (text : Text) : Exec α := do
  setStatus status
  warn text
  let _ ← flushOutput
  throw .error

/-- Reports a problem that ends the running command. -/
def fail {α : Type} (text : Text) : Exec α :=
  failWith 2 text

def failNumber {α : Type} (text : Text) : Exec α :=
  fail ("Illegal number: ".toList ++ text)

/-- The number that an argument denotes: decimal, not negative, and of the signed 32-bit range. -/
def argumentNumber (text : Text) : Exec Nat :=
  match decimalOf? text with
  | some i => if 0 ≤ i ∧ i < Int.pow 2 31 then return i.toNat else failNumber text
  | none => failNumber text

end CueScript.Shell
