import CueScript.Shell.Expansion
import CueScript.Shell.Grammar

/-!
# CueScript.Shell.Children — processes that run inside of others

1. **Repetition** with a bound on the number of turns.
2. **Scripts**: commands are read off a source and run one by one, by an evaluator that is handed in.
3. **Signals** wait for their traps or end the process.
4. **Ends**: what a shell does when its commands are done.
5. **Processes** run to their end before the one that has started them goes on; it takes over what
   they have done to the system. Those in the background are put off until somebody waits.
6. **Pipelines**: processes run one after the other. A pipe takes a bounded number of characters, so
   that a writer without end is cut off; when its reader needs more, all of them run again with more
   room.
-/

namespace CueScript.Shell

/-- What is known about the place of a command. -/
structure Flags where
  /-- Somebody looks at the status, so that a failure does not end the shell. -/
  tested : Bool
  /-- Nothing follows the command in its process. -/
  last : Bool
deriving Repr, DecidableEq

/-- No one looks, and something follows. -/
def Flags.none : Flags := ⟨false, false⟩

/-- What runs commands. -/
structure Evaluator where
  /-- Runs a command and gives its status. -/
  run : Command → Flags → Exec Nat
  /-- Runs the processes that the running one has put into the background. Those that are waited for,
  by their numbers, run to their end. -/
  await (awaited : Nat → Bool) : Exec Unit

/-- Lets the processes of the background run, without waiting for any of them. -/
def Evaluator.letRun (ev : Evaluator) : Exec Unit :=
  ev.await fun _ => false

def Evaluator.awaitAll (ev : Evaluator) : Exec Unit :=
  ev.await fun _ => true

/-! ## Repetition -/

/-- More turns than any loop takes. -/
def turnBound : Nat := 1000000000000

/-- Repeats a turn until it gives a result. The bound is on the number of turns. -/
@[specialize]
def repeatTurns {σ α : Type} (turn : σ → Exec (σ ⊕ α)) : Nat → σ → Exec α
  | 0, _ => throw (.killed 9)
  | n + 1, s => do
    let m ← get
    if let some left := m.patience then
      if left = 0 then throw .tired
      set { m with patience := some (left - 1) }
    match ← turn s with
    | .inl s => repeatTurns turn n s
    | .inr a => return a

/-! ## Scripts -/

/-- The text that a source goes on with when all texts in front of it have ended. -/
def Source.bottom (s : Source) : Text :=
  (s.below.getLast?.getD s.layer).rest

/-- Shows the lines that were read, of those that are left. -/
def showLines (before after : Text) : Exec Unit := do
  let count := before.length - after.length
  let read := before.take count
  let rest := if read.getLast? = some '\n' then []
    else after.takeWhile (· != '\n') ++ (if after.contains '\n' then ['\n'] else [])
  writeAnyway 2 (read ++ rest)

def failSyntax {α : Type} (e : SyntaxFault) : Exec α := do
  alter fun p => { p with line := e.line, inputLine := e.line }
  fail ("Syntax error: ".toList ++ e.message.toList)

/-- Reads the next command off a source. `isFile` tells that the source is read line by line, which an
option shows. -/
def readNext (isFile : Bool) (source : Source) : Exec NextCommand := do
  let p ← process
  let shows := isFile && p.has .verbose
  match source.nextCommand p.aliases with
  | .error e =>
    if shows then showLines source.bottom []
    failSyntax e
  | .ok next =>
    if shows then showLines source.bottom next.source.bottom
    alter fun p => { p with inputLine := next.source.line }
    return next

/-- Runs the commands of a source, until commands are passed over. Gives the status of the last one. -/
def runSource (ev : Evaluator) (tested isFile : Bool) (source : Source) : Exec Nat := do
  let inputLine := (← process).inputLine
  let status ← repeatTurns (fun (source, status) => do
    let next ← readNext isFile source
    match next.command with
    | none => return .inr status
    | some c =>
      let given ← ev.run c ⟨tested, false⟩
      let status := match c with
        | .empty => status
        | _ => given
      if (← process).skip = .none then return .inl (next.source, status)
      else return .inr status) turnBound (source, 0)
  alter fun p => { p with inputLine }
  return status

/-- Runs an action that reads commands from elsewhere than the input of the shell. -/
def elsewhere (action : Exec Nat) : Exec Nat := do
  let p ← process
  alter fun p => { p with outerLine := p.outerLine.or (some p.inputLine) }
  let status ← action
  alter fun after => { after with outerLine := p.outerLine }
  return status

def runText (ev : Evaluator) (tested : Bool) (text : Text) : Exec Nat :=
  elsewhere (runSource ev tested false (.ofText text))

/-! ## Signals -/

def arrive (signal : Nat) : Exec Unit := do
  let p ← process
  match if signal = 9 then none else p.traps.lookup signal with
  | some [] => pure ()
  | some _ =>
    if signal ∉ p.pending ∧ signal ∉ p.ignored then
      alter fun p => { p with pending := signal :: p.pending }
  | none =>
    if signal = 9 ∨ (signal ∉ p.ignored ∧ signal ∉ harmlessSignals) then throw (.killed signal)

/-- Lets the signals arrive that were sent to this process. -/
def receive : Exec Unit := do
  let m ← get
  if !m.system.sent.isEmpty then
    let pid := m.process.pid
    set { m with system := { m.system with sent := m.system.sent.filter fun s => s.1 ≠ pid } }
    (m.system.sent.filter fun s => s.1 = pid).reverse.forM fun s => arrive s.2

/-- Runs the traps of the signals that have arrived. A trap leaves the status as it was, unless it
ends a function with a status of its own. -/
def runTraps (ev : Evaluator) : Exec Unit := do
  let p ← process
  if !p.pending.isEmpty then
    let status := p.saved.getD p.status
    alter fun q => { q with saved := some status }
    ((List.range signalCount).filter (· ∈ p.pending)).forM fun signal => do
      let q ← process
      if q.skip = .none then
        alter fun q => { q with pending := q.pending.filter (· ≠ signal) }
        match q.traps.lookup signal with
        | none => pure ()
        | some action =>
          let _ ← runText ev false action
          if (← process).skip ≠ .function then setStatus status
    alter fun q => { q with saved := p.saved }

/-! ## Ends -/

/-- Settles the status of a shell that ends. `exits` tells whether it was told to end. -/
def settle (exits : Bool) : Exec Unit :=
  alter fun p =>
    { p with
      status := match p.saved with
        | some n => if exits ∨ p.skip = .rest then n else p.status
        | none => p.status
      saved := none
      skip := .none
      loops := 0
      isTracing := false }

/-- What is done at the end of a shell. -/
def endShell (ev : Evaluator) (exits : Bool) : Exec Unit := do
  settle exits
  let p ← process
  match p.traps.lookup 0 with
  | none => pure ()
  | some action =>
    alter fun p => { p with
      saved := some p.status
      traps := p.traps.filter fun t => t.1 ≠ 0 }
    let exits ← try
        let _ ← runText ev false action
        alter fun p => { p with skip := .rest }
        pure false
      catch
        | .exit => pure true
        | .error | .finish => pure false
        | stop => throw stop
    settle exits

/-- Runs the commands of a shell, and what is done at its end. -/
def toEnd (ev : Evaluator) (commands : Exec Unit) : Exec Unit := do
  let exits ← try
      commands
      runTraps ev
      pure false
    catch
      | .exit => pure true
      | .error | .finish => pure false
      | stop => throw stop
  endShell ev exits

/-! ## Processes -/

/-- The state of a process that this one starts. -/
def Process.child (p : Process) (pid : Nat) : Process :=
  { p with
    pid
    inputLine := p.outerLine.getD p.inputLine
    outerLine := none
    ancestors := p.pid :: p.ancestors
    traps := p.traps.filter fun t => t.2.isEmpty
    pending := []
    jobs := []
    output := [] }

/-- A process number that no process has had. -/
def newProcess : Exec Nat := do
  let m ← get
  let pid := m.system.nextProcess
  set { m with system := { m.system with nextProcess := pid + 1 } }
  return pid

/-- Runs an action as a process that is started from the running one, and gives how it has ended. -/
def inProcess (ev : Evaluator) (pid : Nat) (action : Exec Unit) : Exec Ending := do
  let p ← process
  alter fun p => p.child pid
  andThenAlways (do
    let ended : Exec Ending := do return .exited (← process).status
    let ending ← try
        action
        ended
      catch
        | .killed signal => pure (.killed signal)
        | .full pipe => throw (.full pipe)
        | .starved pipe => throw (.starved pipe)
        | .tired => throw .tired
        | _ => ended
    ev.awaitAll
    return ending) (modify fun m => { m with process := p })

/-- Names the signal that has ended a process that was waited for. -/
def announce : Ending → Exec Unit
  | .exited _ => pure ()
  | .killed signal =>
    if signal ∈ quietSignals then pure ()
    else writeAnyway 2 (signalPhrase signal ++ ['\n'])

/-- Waits for a process that has ended in the foreground, and gives its status. -/
def waitFor (ending : Ending) : Exec Nat := do
  announce ending
  receive
  return ending.status

/-- How a job has ended, if it has: the status of its last process counts. -/
def Machine.ending? (m : Machine) (j : Job) : Option Ending :=
  if j.processes.all fun pid => (m.ended.lookup pid).isSome then
    j.processes.getLast?.bind fun pid => m.ended.lookup pid
  else none

/-- The number of a new job: the first one that is free. A job that has ended and was waited for gives
its number away. -/
def takeJobNumber : Exec Nat := do
  let m ← get
  let jobs := m.process.jobs
  let isFree (n : Nat) : Bool :=
    jobs.all fun j => j.number ≠ n || (j.isWaited && (m.ending? j).isSome)
  let n := (((List.range (jobs.length + 1)).map (· + 1)).find? isFree).getD 1
  alter fun p => { p with jobs := p.jobs.filter fun j => j.number ≠ n }
  return n

/-- Runs a process and waits for it. -/
def runChild (ev : Evaluator) (action : Exec Unit) : Exec Nat := do
  let _ ← takeJobNumber
  let pid ← newProcess
  ev.letRun
  waitFor (← inProcess ev pid action)

/-! ## Output -/

/-- The output of a command as it is inserted: without line ends behind it and without zero
bytes. -/
def insertedOutput (text : Text) : Text :=
  ((text.filter (· ≠ '\x00')).reverse.dropWhile (· == '\n')).reverse

/-- Runs a command in a process of its own and gives what it writes. -/
def outputOf (ev : Evaluator) (c : Command) : Exec Text :=
  match c with
  | .empty => return []
  | c => forgetting do
    let (reading, writing) ← addPipe [] none
    let status ← runChild ev do
      pointStream 1 writing
      toEnd ev do
        let _ ← ev.run c ⟨false, true⟩
    alter fun p => { p with substituted := status }
    match ← onSystem fun s => s.peek reading with
    | .ok text => return insertedOutput text
    | .error _ => return []

/-! ## Pipelines -/

/-- The command of a process, as the process runs it. The first one in the background has no input
and is not interrupted. -/
def Stage.action (ev : Evaluator) (flags : Flags) (background : Bool) (stage : Stage)
    (input output : Option Nat) : Exec Unit := do
  if background then
    alter fun p => { p with ignored := 2 :: 3 :: p.ignored }
    if input.isNone then pointStream 0 (← addFile (Access.read.file (.device .null)))
  if let some id := input then pointStream 0 id
  if let some id := output then pointStream 1 id
  receive
  toEnd ev do
    stage.redirects.forM (redirect (expandText (outputOf ev) .forQuoted))
    let _ ← ev.run stage.body { flags with last := true }

/-- Runs the processes of a pipeline from one on, which reads from an open file if one is given. A
pipe takes `room` characters for each process that follows, if that is bounded. Pipes from
`firstPipe` on belong to the pipeline. -/
def runStages (ev : Evaluator) (flags : Flags) (background : Bool) (room : Option Nat)
    (firstPipe : Nat) (input : Option Nat) : List Stage → Exec (List (Nat × Ending))
  | [] => return []
  | stage :: rest => do
    let pipe ← if rest.isEmpty then pure none
      else some <$> addPipe [] (room.map (· * rest.length))
    let ending ← try
        inProcess ev stage.pid (stage.action ev flags background input (pipe.map Prod.snd))
      catch
        | .full p => if firstPipe ≤ p then pure (.killed 13) else throw (.full p)
        | stop => throw stop
    return (stage.pid, ending) ::
      (← runStages ev flags background room firstPipe (pipe.map Prod.fst) rest)

/-- Runs the processes of a pipeline, with so much room in its pipes. When a process needs more than
the one in front of it could write, all is taken back and run again with twice the room. The bound is
on the number of tries. -/
def runWithRoom (ev : Evaluator) (flags : Flags) (background : Bool) (stages : List Stage) :
    Nat → Nat → Exec (List (Nat × Ending))
  | 0, _ => throw (.killed 9)
  | n + 1, room => do
    let m ← get
    try forgetting (runStages ev flags background (some room) m.system.nextPipe none stages)
    catch
      | .starved p =>
        if m.system.nextPipe ≤ p then
          set m
          runWithRoom ev flags background stages n (2 * room)
        else throw (.starved p)
      | stop => throw stop

/-- Runs the processes of a pipeline and gives how they have ended. -/
def runPipeline (ev : Evaluator) (flags : Flags) (background : Bool) (stages : List Stage) :
    Exec (List (Nat × Ending)) :=
  if stages.length = 1 then forgetting (runStages ev flags background none 0 none stages)
  else runWithRoom ev flags background stages 16 65536

/-! ## Background -/

/-- How many turns a process may take while it is not waited for. -/
def patienceBound : Nat := 100000

def noteEnded (endings : List (Nat × Ending)) : Exec Unit :=
  modify fun m => { m with
    ended := endings.foldl (fun es e => if (es.lookup e.1).isSome then es else e :: es) m.ended }

/-- Signals for the processes of a task that are on their way. -/
def Machine.sentTo (m : Machine) (t : Task) : List (Nat × Nat) :=
  m.system.sent.filter fun s => t.stages.any fun stage => stage.pid = s.1

/-- Runs processes of the background. When nobody waits for them they are put off if they take too
long; a signal that is on its way to them then ends them. -/
def Task.run (ev : Evaluator) (waits : Bool) (t : Task) : Exec Unit := do
  let m ← get
  let first := t.stages.head?.map Stage.pid
  let others := m.tasks.filter fun u => u.stages.head?.map Stage.pid ≠ first
  let signal := if t.isLong then (m.sentTo t).head?.map Prod.snd else none
  let hurries := (!waits || signal.isSome) && m.patience.isNone
  let system := if signal.isNone then m.system else
    { m.system with sent := m.system.sent.filter fun s => s ∉ m.sentTo t }
  set { m with
    process := t.process
    system
    tasks := others
    patience := if hurries then some patienceBound else m.patience }
  let back : Exec Unit := modify fun after =>
    { after with process := m.process, patience := m.patience }
  try
    noteEnded (← runPipeline ev ⟨t.isTested, true⟩ true t.stages)
    back
  catch
    | .tired =>
      match signal with
      | some signal =>
        noteEnded (t.stages.map fun stage => (stage.pid, .killed signal))
        back
      | none =>
        if hurries then set { m with tasks := { t with isLong := true } :: others }
        else
          back
          throw .tired
    | stop =>
      back
      throw stop

/-- Runs the processes that the running one has put into the background. Those that take long are put
off as long as nobody waits for them and no signal is on its way to them. -/
def runTasks (ev : Evaluator) (awaited : Nat → Bool) : Exec Unit := do
  let m ← get
  (m.tasks.filter fun t => t.owner = m.process.pid).forM fun t => do
    let waits := t.stages.any fun stage => awaited stage.pid
    if waits ∨ !t.isLong ∨ !((← get).sentTo t).isEmpty then t.run ev waits

/-- Runs the commands of processes in the background, and gives the number of the last one. -/
def putOff (flags : Flags) (stages : List (List Redirection × Command)) : Exec Unit := do
  let number ← takeJobNumber
  let stages ← stages.mapM fun s => do return Stage.mk (← newProcess) s.1 s.2
  let pids := stages.map Stage.pid
  alter fun p => { p with
    jobs := ⟨number, pids, false⟩ :: p.jobs
    lastJob := pids.getLast?.or p.lastJob }
  modify fun m => { m with
    tasks := m.tasks ++ [⟨m.process.pid, m.process, flags.tested, stages, false⟩] }

end CueScript.Shell
