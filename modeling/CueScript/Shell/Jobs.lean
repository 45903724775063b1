import CueScript.Shell.Arguments
import CueScript.Shell.Children

/-!
# CueScript.Shell.Jobs — signals and processes in the background

1. **Traps** are set for signals and shown in the order of their numbers.
2. **Signals** are sent to the process itself, to those around it, and to those in the background.
3. **Jobs** are waited for and shown, the newest first. None of them can be brought to the front.
-/

namespace CueScript.Shell

/-! ## Traps -/

def trapsText (p : Process) : Text :=
  ((List.range signalCount).filterMap fun n => (p.traps.lookup n).map fun action =>
    "trap -- ".toList ++ singleQuoted action ++ ' ' :: signalName n ++ ['\n']).flatten

/-- Sets what is run when signals arrive, or takes it away. -/
def setTraps (action : Option Text) : List Text → Exec Nat
  | [] => return 0
  | name :: names => do
    match signalNumber? 0 name with
    | none =>
      writeAnyway 2 ("trap: ".toList ++ name ++ ": bad trap\n".toList)
      return 1
    | some n =>
      alter fun p =>
        let others := p.traps.filter fun t => t.1 ≠ n
        { p with traps := match action with
          | some a => others ++ [(n, a)]
          | none => others }
      setTraps action names

/-- Sets or shows traps. A dash takes a trap away, and so does a number in place of the first action. -/
def runTrap (args : List Text) : Exec Nat := do
  match ← withoutOptions args with
  | [] =>
    put (trapsText (← process))
    return 0
  | [name] => setTraps none [name]
  | action :: names =>
    if (signalByNumber? action).isSome then setTraps none (action :: names)
    else setTraps (if action = ['-'] then none else some action) names

/-! ## Signals -/

/-- Whether there is a process with a number that can be reached. -/
def Machine.reaches (m : Machine) (pid : Nat) : Bool :=
  pid ∈ 1 :: m.process.pid :: m.process.ancestors
    || m.tasks.any fun t => t.stages.any fun s => s.pid = pid

/-- Sends a signal to a process and tells whether there is such a process. Number 0 is no signal, and
the first process of all takes none. -/
def sendSignal (signal pid : Nat) : Exec Bool := do
  let m ← get
  if m.reaches pid ∧ signal ≠ 0 then
    if pid = m.process.pid then arrive signal
    else set { m with system := { m.system with sent := (pid, signal) :: m.system.sent } }
  return m.reaches pid

/-- The job that an argument names. `isControlled` tells that it has to be one that can be brought to the
front. -/
def jobOf (isControlled : Bool) (name : Option Text) : Exec Job := do
  let jobs := (← process).jobs
  let current (j : Option Job) (which : String) : Exec Job :=
    match j with
    | some j => return j
    | none => fail ("No ".toList ++ which.toList ++ " job".toList)
  let unknown : Exec Job := fail ("No such job: ".toList ++ name.getD [])
  let job ← match name with
    | none | some ['%'] | some ['%', '+'] | some ['%', '%'] => current jobs.head? "current"
    | some ['%', '-'] => current (jobs.drop 1).head? "previous"
    | some ('%' :: n) =>
      match jobs.find? fun j => some j.number = natOf? n with
      | some j => pure j
      | none => unknown
    | some _ => unknown
  if isControlled then
    fail ("job ".toList ++ name.getD "(null)".toList ++ " not created under job control".toList)
  return job

/-- Sends a signal to the process that an argument names. No job has a group of processes. -/
def sendTo (signal : Nat) (target : Text) : Exec Bool := do
  match target with
  | '%' :: _ =>
    let _ ← jobOf false (some target)
    return false
  | '-' :: digits =>
    let _ ← argumentNumber digits
    return false
  | _ => sendSignal signal (← argumentNumber target)

/-- Shows the names of all signals, or of the one with a number. -/
def listSignals : List Text → Exec Nat
  | [] => do
    put (['0', '\n'] ++ ((List.range signalCount).drop 1).flatMap fun n => signalName n ++ ['\n'])
    return 0
  | s :: _ => do
    let n ← argumentNumber s
    let n := if 128 < n then n - 128 else n
    if n = 0 ∨ signalCount ≤ n then fail ("invalid signal number or exit status: ".toList ++ s)
    put (signalName n ++ ['\n'])
    return 0

/-- Sends a signal, `TERM` unless one is named, to processes, or lists signals. -/
def runKill (args : List Text) : Exec Nat := do
  let named : Option Nat := match args with
    | ('-' :: name) :: _ => signalNumber? 1 name
    | _ => none
  let (options, rest) ← match named, args with
    | none, ('-' :: _) :: _ => readOptions "ls:".toList args
    | none, _ => pure ([], args)
    | some _, _ => pure ([], args.drop 1)
  let signal ← options.foldlM (fun signal o =>
    if o.1 = 's' then
      match signalNumber? 1 o.2 with
      | some n => return some n
      | none => fail ("invalid signal number or name: ".toList ++ o.2)
    else return signal) named
  let lists := options.any fun o => o.1 = 'l'
  let signal := if lists then signal else some (signal.getD 15)
  if (signal.isNone || rest.isEmpty) != lists then
    fail ("Usage: kill [-s sigspec | -signum | -sigspec] [pid | job]... or\n"
      ++ "kill -l [exitstatus]").toList
  else if lists then listSignals rest
  else
    let reached ← rest.mapM fun target => do
      let found ← sendTo (signal.getD 15) target
      if !found then warn (OsError.noProcess.phrase.toList ++ ['\n'])
      return found
    return if reached.all id then 0 else 1

/-! ## Jobs -/

/-- The status that a wait ends with when a signal arrives that is trapped. -/
def interruption? : Exec (Option Nat) := do
  receive
  return (← process).pending.head?.map signalStatus

/-- Waits for a job, names the signals that have ended its processes, and gives its status. -/
def waitForJob (ev : Evaluator) (j : Job) : Exec Nat := do
  let before := (← get).ended
  ev.await (· ∈ j.processes)
  let m ← get
  j.processes.forM fun pid =>
    match before.lookup pid, m.ended.lookup pid with
    | none, some ending => announce ending
    | _, _ => pure ()
  match ← interruption? with
  | some status => return status
  | none =>
    alter fun p => { p with
      jobs := p.jobs.map fun k => if k.number = j.number then { k with isWaited := true } else k }
    return ((m.ending? j).map Ending.status).getD 127

/-- Waits for the jobs that arguments name. What is not known is passed over; a signal that is trapped
ends the wait. -/
def waitForAll (ev : Evaluator) (status : Nat) : List Text → Exec Nat
  | [] => return status
  | a :: rest => do
    let job ← match a with
      | '%' :: _ => some <$> jobOf false (some a)
      | _ => do
        let pid ← argumentNumber a
        pure ((← process).jobs.find? fun j => j.processes.getLast? = some pid)
    match job with
    | none => waitForAll ev status rest
    | some j =>
      let status ← waitForJob ev j
      if (← process).pending.isEmpty then waitForAll ev status rest else return status

/-- Waits for all jobs, or for some of them, whose status it takes over. -/
def runWait (ev : Evaluator) (args : List Text) : Exec Nat := do
  match ← withoutOptions args with
  | [] =>
    ev.awaitAll
    match ← interruption? with
    | some status => return status
    | none =>
      alter fun p => { p with jobs := p.jobs.map fun j => { j with isWaited := true } }
      return 0
  | args => waitForAll ev 127 args

def stateText (m : Machine) (j : Job) : Text :=
  match m.ending? j with
  | none => "Running".toList
  | some (.exited n) =>
    if n % 256 = 0 then "Done".toList else "Done(".toList ++ natText (n % 256) ++ [')']
  | some (.killed signal) => signalPhrase signal

/-- The lines for a job: its number, its mark among the others, and its state, or the numbers of its
processes. -/
def jobText (m : Machine) (numbers groups : Bool) (j : Job) : Text :=
  let pids := j.processes.map natText
  if groups then pids.headD [] ++ ['\n']
  else
    let jobs := m.process.jobs.map Job.number
    let mark := if jobs.head? = some j.number then '+'
      else if (jobs.drop 1).head? = some j.number then '-' else ' '
    let start := '[' :: natText j.number ++ [']', ' ', mark, ' ']
    let first := start ++ (if numbers then pids.headD [] ++ [' '] else []) ++ stateText m j
    let padded := first ++ repeated ' ' (max 1 (33 - first.length))
    if numbers then
      padded ++ ((pids.drop 1).flatMap fun pid =>
        let line := [' ', '|', '\n'] ++ repeated ' ' start.length ++ pid ++ [' ']
        line ++ repeated ' ' (max 1 (36 - line.length))) ++ ['\n']
    else padded ++ ((pids.drop 1).flatMap fun _ => " | ".toList) ++ ['\n']

/-- Shows jobs. Those that have ended are forgotten when they have been shown. -/
def runJobs (args : List Text) : Exec Nat := do
  let (options, args) ← readOptions "lp".toList args
  let mode := options.getLast?.map Prod.fst
  let isShown (j : Job) : Exec Unit := do
    let m ← get
    put (jobText m (mode = some 'l') (mode = some 'p') j)
    if mode ≠ some 'p' ∧ (m.ending? j).isSome then
      alter fun p => { p with jobs := p.jobs.filter fun k => k.number ≠ j.number }
  if args.isEmpty then (← process).jobs.forM isShown
  else args.forM fun a => do isShown (← jobOf false (some a))
  return 0

/-- Brings a job to the front or sends it to the back; there is none that this can be done with. -/
def runControl (args : List Text) : Exec Nat := do
  let _ ← jobOf true (← withoutOptions args).head?
  return 0

end CueScript.Shell
