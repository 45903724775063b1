import CueScript.Shell.Builtin
import CueScript.Shell.Env

/-!
# CueScript.Shell.Execution — running commands

1. **Plans**: the words of a simple command are expanded, and its name decides how.
2. **Programs** run in a process of their own, or in place of the shell.
3. **Commands of the shell** and functions run in the shell itself. An error in one that is not special
   only ends the command.
4. **Simple commands** put this together with redirections and assignments.
5. **Compound commands** run their parts through an evaluator. The evaluator that counts goes down by a
   bound on how deep commands nest.
-/

namespace CueScript.Shell

/-! ## Plans -/

/-- What the arguments of `command` ask for, as far as they are known. -/
inductive CommandUse where
  /-- A command to run, with the arguments behind its name; programs may be looked up in the usual
  directories. -/
  | run (usual : Bool) (fields : List Text)
  /-- Descriptions of names. -/
  | describe (args : List Text)
  /-- More arguments have to be known. -/
  | more (usual : Bool) (own : List Text) (marked : Bool)

/-- Reads the arguments of `command`, which may be the name of the command again. `own` holds the
options of the last `command` that were read, and `marked` tells that a double dash ends them. -/
def commandUse (usual : Bool) (own : List Text) (marked : Bool) : List Text → CommandUse
  | [] => .more usual own marked
  | a :: rest =>
    match if marked then [] else a with
    | ['-', '-'] => commandUse usual own true rest
    | '-' :: c :: cs =>
      if (c :: cs).all (· = 'p') then commandUse true (own ++ [a]) false rest
      else .describe (own ++ a :: rest)
    | _ => if a = "command".toList then commandUse usual [] false rest else .run usual (a :: rest)

/-- A simple command with its words expanded. -/
structure Plan where
  /-- The name and the arguments of the command. -/
  fields : List Text
  /-- What stands in front of them. -/
  front : List Text
  /-- Whether functions count, and whether programs are looked up in the usual directories. -/
  functions : Bool
  usual : Bool
  /-- Whether the command is special; nothing when this is not known. -/
  special : Option Bool

/-- Expands words until there is a field, and gives the words that are left. -/
def fillFields (substitute : Substitute) : List Word → Exec (List Text × List Word)
  | [] => return ([], [])
  | w :: ws => do
    let fields ← expandFields substitute w
    if fields.isEmpty then fillFields substitute ws else return (fields, ws)

/-- Expands words until it is known what `command` has to do. Gives what it is, the fields, and the
words that are left. -/
def fillCommand (substitute : Substitute) (use : CommandUse) (seen : List Text) :
    List Word → Exec (CommandUse × List Text × List Word)
  | [] => return (use, seen, [])
  | w :: ws =>
    match use with
    | .more usual own marked => do
      let fields ← expandFields substitute w
      fillCommand substitute (commandUse usual own marked fields) (seen ++ fields) ws
    | use => return (use, seen, w :: ws)

/-- Expands arguments; those of commands that declare variables may be assignments. -/
def expandArguments (substitute : Substitute) (declares : Bool) (words : List Word) :
    Exec (List Text) := do
  let fields ← words.mapM fun w =>
    if declares ∧ isAssignment w then do return [← expandText substitute .forAssignment w]
    else expandFields substitute w
  return fields.flatten

/-- Expands the words of a simple command. -/
def planCommand (substitute : Substitute) (words : List Word) : Exec Plan := do
  let (fields, words) ← fillFields substitute words
  match fields with
  | [] => return ⟨[], [], true, false, none⟩
  | name :: args =>
    let kind := if ((← process).functions.lookup name).isSome then none else builtinKind? name
    if kind.isSome ∧ name = "command".toList then
      let (use, seen, words) ← fillCommand substitute (commandUse false [] false args) args words
      match use with
      | .run usual fields =>
        let kind := (fields.head?.bind builtinKind?).getD ⟨false, false⟩
        let more ← expandArguments substitute kind.declares words
        let front := name :: seen.take (seen.length - fields.length)
        return ⟨fields ++ more, front, false, usual, some false⟩
      | .describe args =>
        let more ← expandArguments substitute false words
        return ⟨name :: args ++ more, seen.take (seen.length - args.length), true, false, some false⟩
      | .more _ own _ => return ⟨name :: own, seen, true, false, some false⟩
    else
      let more ← expandArguments substitute (kind.any BuiltinKind.declares) words
      return ⟨fields ++ more, [], true, false, kind.map BuiltinKind.isSpecial⟩

/-! ## Programs -/

/-- The variables that every shell has, with values if it sets them. -/
def shellVariables : List (String × Option String) :=
  [("OPTIND", some "1"), ("PS4", some "+ "), ("PS2", some "> "), ("PS1", some "# "),
    ("PATH", some "/usr/local/sbin:/usr/local/bin:/usr/sbin:/usr/bin:/sbin:/bin"),
    ("MAILPATH", none), ("MAIL", none), ("IFS", some " \t\n")]

def Process.startShell (p : Process) (name : Text) : Process :=
  { p with
    shell := p.pid
    name
    command := none
    args := []
    optionIndex := 1
    optionOffset := none
    vars := shellVariables.map fun v =>
      (v.1.toList, ⟨v.2.map String.toList, false, false, true⟩)
    hidden := []
    functions := []
    aliases := []
    hashed := []
    settings := []
    status := 0
    line := 0
    inputLine := 1
    outerLine := none
    calls := 0
    loops := 0
    skip := .none
    substituted := 0
    saved := none
    ignored := p.ignored ++ (p.traps.filter fun t => t.2.isEmpty).map Prod.fst
    traps := []
    pending := []
    jobs := []
    lastJob := none
    traceStream := none
    isTracing := false
    output := [] }

/-- Takes over the variables that a shell gets. Separators and the place of the option reader start
anew, and the path of the working directory counts only if it leads there. -/
def takeVariables (environment : List (Text × Text)) : Exec Unit := do
  environment.forM fun v => do
    if isName v.1 then
      store v.1 (some v.2) ⟨true, false, false⟩ true
  assign "IFS".toList [' ', '\t', '\n']
  assign "OPTIND".toList ['1']
  assign "PPID".toList (natText ((← process).ancestors.headD 1))
  let m ← get
  let known := (m.process.value? "PWD".toList).filter fun path =>
    path.head? = some '/' && ((m.world.find (ofBytes path)).toOption.map Prod.fst) = some m.process.place
  let path := known.getD (toBytes (World.placePath m.process.place))
  alter fun p => { p with directory := some path }
  store "PWD".toList (some path) ⟨true, false, false⟩ true

/-- All that can be read from an open file. The bound is on the number of pieces that it comes in. -/
def readAll (id : Nat) : Nat → Exec Text
  | 0 => return []
  | n + 1 => do
    match ← onSystem fun s => s.peek id with
    | .error _ | .ok [] => return []
    | .ok text =>
      modify fun m => { m with system := m.system.skip id text.length }
      return text ++ (← readAll id n)

/-- The most pieces that a script comes in. -/
def pieceBound : Nat := 1000

/-- Asks for commands, as often as lines were read. -/
def prompt (ev : Evaluator) (lines : Nat) : Exec Unit := do
  let shown (name : String) : Exec Text := do
    let text := ((← process).value? name.toList).getD []
    match textAsWord? text with
    | some word => expandText (outputOf ev) .forQuoted word
    | none => return text
  if 0 < lines then
    writeAnyway 2 (← shown "PS1")
    (List.range (lines - 1)).forM fun _ => do writeAnyway 2 (← shown "PS2")

/-- Runs the commands that somebody types. An error takes the rest of the input away. -/
def runTyped (ev : Evaluator) (source : Source) : Exec Unit := do
  repeatTurns (fun (source : Source) => do
    let start ← get
    try
      let next ← readNext true source
      prompt ev (max 1 (next.source.line - source.line))
      match next.command with
      | none =>
        writeAnyway 2 ['\n']
        return .inr ()
      | some c =>
        let _ ← ev.run c .none
        return if (← process).skip = .none then .inl next.source else .inr ()
    catch
      | .error =>
        alter fun p => { p with
          hidden := start.process.hidden
          loops := 0
          calls := 0
          command := start.process.command }
        return .inl (.ofText [])
      | stop => throw stop) turnBound source

/-- Runs a shell by its arguments: options first, then commands, the name of a script, or nothing when
commands come from the input. -/
def runShell (ev : Evaluator) (name : Text) (args : List Text) (environment : List (Text × Text)) :
    Exec Unit := do
  alter fun p => p.startShell name
  toEnd ev do
    takeVariables environment
    let read ← applyOptions true (args.length + 1) args
    if read.rest.isEmpty then
      if read.hasCommands then fail "-c requires an argument".toList
      alter fun p => { p with settings := Setting.set true .stdin p.settings }
    if (← process).has .interactive then
      alter fun p => { p with settings := Setting.set true .monitor p.settings }
    let p ← process
    let isTyped := p.has .interactive
    let runInput : Exec Unit := do
      let text ← match p.stream? 0 with
        | some id => readAll id pieceBound
        | none => pure []
      if isTyped then runTyped ev (.ofText text)
      else
        let _ ← runSource ev false true (.ofText text)
    if read.hasCommands then
      alter fun p => { p with
        name := (read.rest.drop 1).headD p.name
        args := read.rest.drop 2 }
      checkMonitor
      try
        let _ ← runText ev false (read.rest.headD [])
      catch
        | .error => if isTyped then runTyped ev (.ofText []) else throw .error
        | stop => throw stop
      if p.has .stdin ∧ (← process).skip = .none then runInput
    else if p.has .stdin then
      alter fun p => { p with args := read.rest }
      checkMonitor
      runInput
    else
      let path := read.rest.headD []
      let id ← mustOpen .read path
      alter fun p => { p with name := path, args := read.rest.drop 1 }
      checkMonitor
      let text ← readAll id pieceBound
      let _ ← runSource ev false true (.ofText text)

/-- Runs a program in the running process. The bound is on the number of programs that only run
another one. -/
def runProgram (ev : Evaluator) : Nat → String → Text → List Text → List (Text × Text) → Exec Unit
  | 0, _, _, _, _ => throw (.killed 9)
  | n + 1, program, name, args, environment =>
    match plainProgram? program name with
    | some action => action args
    | none =>
      if program = "env" then runEnv (runProgram ev n) name args environment
      else runShell ev name args environment

/-- More programs than ever run one another in one process. -/
def programBound : Nat := 10000

/-- Runs the program under a path in place of the shell, under a name of its own. -/
def startProgram {α : Type} (ev : Evaluator) (path : Except OsError Text) (name : Text)
    (args : List Text) : Exec α := do
  let m ← get
  match path.bind (programAt m.world) with
  | .ok program =>
    runProgram ev programBound program name args m.process.exports
    throw .replaced
  | .error e =>
    setStatus (if e = .noEntry ∨ e = .notDirectory ∨ e = .nameTooLong ∨ e = .tooManyLinks then 127
      else 126)
    warn (name ++ ": ".toList ++ (startFailure e).toList)
    throw .finish

/-- Runs the program under a path and waits for it. Nothing waits behind the last command of a process
that has no traps. -/
def runExternal (ev : Evaluator) (last : Bool) (path name : Text) (args : List Text) : Exec Nat := do
  if last ∧ !(← process).hasTraps then startProgram ev (.ok path) name args
  else runChild ev (startProgram ev (.ok path) name args)

/-! ## Commands of the shell -/

/-- The path of the script that a name stands for. -/
def scriptPath (name : Text) : Exec Text := do
  let m ← get
  if name.contains '/' then return name
  else
    match (m.process.searchPath.map fun d => pathIn d name).find? fun path =>
      match m.world.look (ofBytes path) with
      | .ok (.file _) | .ok (.program _) => true
      | _ => false with
    | some path => return path
    | none => fail (name ++ ": not found".toList)

/-- Runs a script in this shell. What ends a function ends the script. -/
def runScript (ev : Evaluator) (args : List Text) : Exec Nat := do
  match ← withoutOptions args with
  | [] => return 0
  | name :: _ =>
    let path ← scriptPath name
    let id ← mustOpen .read path
    let text ← readAll id pieceBound
    alter fun p => { p with command := some path }
    let status ← elsewhere (runSource ev false true (.ofText text))
    alter fun p => { p with skip := match p.skip with
      | .function | .rest => .none
      | skip => skip }
    return status

/-- Runs a program in place of the shell; without a name only redirections stay. -/
def runExec (ev : Evaluator) : List Text → Exec Nat
  | [] => return 0
  | name :: args => do
    let m ← get
    let path : Except OsError Text :=
      if name.contains '/' then .ok name
      else
        (searchProgram m.world name 0 .noEntry m.process.searchPath).map fun i =>
          pathIn (m.process.searchPath[i]?.getD []) name
    startProgram ev path name args

def builtinAction (ev : Evaluator) (tested : Bool) (name : Text) (args : List Text) : Exec Nat :=
  match String.ofList name with
  | "eval" => if args.isEmpty then return 0 else runText ev tested (joinBlanks args)
  | "." => runScript ev args
  | "exec" => runExec ev args
  | "wait" => runWait ev args
  | name =>
    match plainBuiltin? name with
    | some action => action args
    | none => return 0

/-- Runs a command of the shell. What it puts out is written at its end. -/
def runBuiltin (ev : Evaluator) (flags : Flags) (special : Bool) (name : Text) (args : List Text) :
    Exec Nat := do
  let old := (← process).command
  let action : Exec Nat := andThenAlways (do
    alter fun p => { p with command := some name }
    let status ← builtinAction ev flags.tested name args
    if ← flushOutput then return status
    else
      warn (name ++ ": I/O error".toList)
      return status ||| 1) (alter fun p => { p with command := old, output := [] })
  try
    let status ← action
    setStatus status
    return status
  catch
    | .error => if special then throw .error else return (← process).status
    | stop => throw stop

/-- How deep calls of functions may nest. -/
def callBound : Nat := 1000

def callFunction (ev : Evaluator) (flags : Flags) (body : Command) (args : List Text) :
    Exec Nat := do
  let p ← process
  if callBound ≤ p.calls then fail "Maximum function recursion depth (1000) reached".toList
  alter fun p => { p with
    calls := p.calls + 1
    args
    optionIndex := 1
    optionOffset := none
    loops := 0 }
  andThenAlways (do
    let _ ← ev.run body { flags with last := false }) (alter fun after => { after with
      calls := p.calls
      args := p.args
      optionIndex := p.optionIndex
      optionOffset := p.optionOffset
      loops := p.loops
      skip := match after.skip with
        | .function | .rest => .none
        | skip => skip })
  return (← process).status

/-! ## Simple commands -/

/-- Shows a command before it is run, if an option asks for that. -/
def traceCommand (ev : Evaluator) (words : List Text) : Exec Unit := do
  let p ← process
  if p.has .xtrace ∧ !p.isTracing then
    let mark := (p.value? "PS4".toList).getD []
    alter fun p => { p with isTracing := true }
    let shown ← andThenAlways (do
      match textAsWord? mark with
      | some word =>
        try expandText (outputOf ev) .forQuoted word
        catch
          | .error => return mark
          | stop => throw stop
      | none => return mark) (alter fun p => { p with isTracing := false })
    if let some id := p.traceStream then
      let _ ← onSystem fun s => s.write id (shown ++ joinBlanks words ++ ['\n'])

/-- Carries assignments out, each of which sees those before it, and gives them as they are shown. -/
def assignAll (ev : Evaluator) (isLocal exported : Bool) (assignments : List Word) :
    Exec (List Text) :=
  assignments.mapM fun w => do
    let text ← expandText (outputOf ev) .forAssignment w
    if isLocal then makeLocal text true
    else
      let (name, value) := splitAssignment text
      store name value { Marking.none with exported } true
    return text

/-- Runs what the name of a command stands for. -/
def runNamed (ev : Evaluator) (flags : Flags) (plan : Plan) : Exec Nat := do
  match plan.fields with
  | [] =>
    let status := (← process).substituted
    setStatus status
    return status
  | name :: args =>
    match ← findCommand plan.functions plan.usual name with
    | .builtin _ => runBuiltin ev flags (plan.special = some true) name args
    | .function body => callFunction ev flags body args
    | .program path => runExternal ev flags.last path name args
    | .missing e =>
      warn (name ++ ": ".toList ++ (startFailure e).toList)
      setStatus 127
      return 127

/-- Runs a simple command. Assignments in front of a command that is not special are local to it. -/
def runSimple (ev : Evaluator) (flags : Flags) (assignments words : List Word)
    (redirects : List Redirect) : Exec Nat := do
  let substitute := outputOf ev
  let plan ← planCommand substitute words
  let isExec := plan.fields.head? = some "exec".toList && plan.special.isSome
  let isLocal := !plan.fields.isEmpty && plan.special ≠ some true
  let depth := (← process).hidden.length
  if isLocal then alter fun p => { p with hidden := [] :: p.hidden }
  let rs ← expandRedirects substitute redirects
  let status ← withRedirections (expandText substitute .forQuoted) rs isExec fun done => do
    if !done then
      setStatus 2
      if plan.special = some true then throw .error
      return 2
    else
      let assigned ← assignAll ev isLocal (isExec && 1 < plan.fields.length) assignments
      traceCommand ev (assigned ++ plan.front ++ plan.fields)
      runNamed ev flags plan
  restoreTo depth
  return status

/-! ## Compound commands -/

/-- Whether a process of its own is needed for a last command. -/
def needsChild (flags : Flags) : Exec Bool := do
  return !flags.last || (← process).hasTraps

def runSubshell (ev : Evaluator) (flags : Flags) (body : Command) (redirects : List Redirect) :
    Exec Nat := do
  let substitute := outputOf ev
  let rs ← expandRedirects substitute redirects
  let inside : Exec Unit := do
    rs.forM (redirect (expandText substitute .forQuoted))
    let _ ← ev.run body { flags with last := true }
  if ← needsChild flags then runChild ev (toEnd ev inside)
  else
    inside
    throw .finish

/-- Runs a command with redirections. Gives no status when they are not possible. -/
def runRedirected (ev : Evaluator) (flags : Flags) (body : Command) (redirects : List Redirect) :
    Exec (Option Nat) := do
  let substitute := outputOf ev
  let rs ← expandRedirects substitute redirects
  withRedirections (expandText substitute .forQuoted) rs false fun done => do
    if done then some <$> ev.run body { flags with last := false } else return none

/-- Runs a pipeline and gives the status of its last process. -/
def runSideBySide (ev : Evaluator) (flags : Flags) (commands : List Command) : Exec Nat := do
  let _ ← takeJobNumber
  let stages ← commands.mapM fun c => do
    prepareCommand c
    return Stage.mk (← newProcess) [] c
  ev.letRun
  let endings ← runPipeline ev flags false stages
  endings.forM fun e => announce e.2
  receive
  return (endings.getLast?.map fun e => e.2.status).getD 0

/-- What a loop does when commands are passed over: whether it ends. One level of what is passed over is
used up. -/
def endsLoop : Exec Bool := do
  match (← process).skip with
  | .none => return false
  | .leave n =>
    alter fun p => { p with skip := if n ≤ 1 then .none else .leave (n - 1) }
    return true
  | .next n =>
    alter fun p => { p with skip := if n ≤ 1 then .none else .next (n - 1) }
    return 1 < n
  | .function | .rest => return true

/-- Runs a body as long as a test says so. -/
def runLoop (ev : Evaluator) (flags : Flags) (untilTrue : Bool) (test body : Command) : Exec Nat :=
  repeatTurns (fun status => do
    let tested ← ev.run test ⟨true, false⟩
    let skip := (← process).skip
    let status := match skip with
      | .function | .rest => tested
      | _ => status
    if skip ≠ .none then
      return if ← endsLoop then .inr status else .inl status
    else if (tested = 0) = untilTrue then return .inr status
    else
      let status ← ev.run body { flags with last := false }
      return if ← endsLoop then .inr status else .inl status) turnBound 0

/-- Runs a body for each of some values of a variable. -/
def runEach (ev : Evaluator) (flags : Flags) (name : Text) (body : Command) (values : List Text) :
    Exec Nat :=
  repeatTurns (fun (values, status) =>
    match values with
    | [] => return .inr status
    | value :: rest => do
      assign name value
      let status ← ev.run body { flags with last := false }
      return if ← endsLoop then .inr status else .inl (rest, status)) turnBound (values, 0)

/-- Runs an action as a loop. -/
def asLoop (action : Exec Nat) : Exec Nat := do
  alter fun p => { p with loops := p.loops + 1 }
  let status ← action
  alter fun p => { p with loops := p.loops - 1 }
  return status

/-- Runs the first arm with a pattern that a text fits. -/
def runArms (ev : Evaluator) (flags : Flags) (text : Text) :
    List (List Word × Command) → Exec Nat
  | [] => return 0
  | (patterns, body) :: arms => do
    let fit ← patterns.anyM fun p => do return fits (← expandPattern (outputOf ev) p) text
    if fit then
      match body with
      | .empty => return 0
      | body => ev.run body flags
    else runArms ev flags text arms

/-- Runs commands one after the other, until some are passed over. -/
def runSequence (ev : Evaluator) (flags : Flags) : List Command → Exec Nat
  | [] => return (← process).status
  | [c] => ev.run c flags
  | c :: cs => do
    let _ ← ev.run c { flags with last := false }
    let p ← process
    if p.skip = .none then runSequence ev flags cs else return p.status

structure Outcome where
  status : Nat
  /-- Whether a failure ends a shell that ends at failures. -/
  counts : Bool

def atLine (line : Nat) : Exec Unit :=
  alter fun p => { p with line }

/-- Runs a command, without what is done in front of every command and behind it. -/
def runCommand (ev : Evaluator) (flags : Flags) : Command → Exec Outcome
  | .empty => do return ⟨(← process).status, false⟩
  | .simple line assignments words redirects => do
    alter fun p => { p with line, substituted := 0 }
    return ⟨← runSimple ev flags assignments words redirects, true⟩
  | .subshell line body redirects => do
    atLine line
    return ⟨← runSubshell ev flags body redirects, true⟩
  | .redirected line body redirects => do
    atLine line
    match ← runRedirected ev flags body redirects with
    | some status => return ⟨status, false⟩
    | none => return ⟨2, true⟩
  | .pipeline commands false => do return ⟨← runSideBySide ev flags commands, true⟩
  | .pipeline commands true => do
    commands.forM prepareCommand
    putOff flags (commands.map fun c => ([], c))
    return ⟨0, true⟩
  | .background line body redirects => do
    atLine line
    let rs ← expandRedirects (outputOf ev) redirects
    putOff { flags with tested := false } [(rs, body)]
    return ⟨0, true⟩
  | .negation body => do
    let status ← ev.run body ⟨true, false⟩
    return ⟨if (← process).skip ≠ .none then status else if status = 0 then 1 else 0, false⟩
  | .both first second => do
    let status ← ev.run first ⟨true, false⟩
    if status ≠ 0 ∨ (← process).skip ≠ .none then return ⟨status, false⟩
    else return ⟨← ev.run second flags, false⟩
  | .either first second => do
    let status ← ev.run first ⟨true, false⟩
    if status = 0 ∨ (← process).skip ≠ .none then return ⟨status, false⟩
    else return ⟨← ev.run second flags, false⟩
  | .sequence commands => do return ⟨← runSequence ev flags commands, false⟩
  | .conditional test body alternative => do
    let status ← ev.run test ⟨true, false⟩
    if (← process).skip ≠ .none then return ⟨status, false⟩
    else if status = 0 then return ⟨← ev.run body flags, false⟩
    else
      match alternative with
      | some c => return ⟨← ev.run c flags, false⟩
      | none => return ⟨0, false⟩
  | .loop untilTrue test body => do
    return ⟨← asLoop (runLoop ev flags untilTrue test body), false⟩
  | .forEach line name words body => do
    atLine line
    let values ← expandAll (outputOf ev) words
    return ⟨← asLoop (runEach ev flags name body values), false⟩
  | .choice line subject arms => do
    atLine line
    let text ← expandText (outputOf ev) .forText subject
    return ⟨← runArms ev flags text arms, false⟩
  | .define _ name body => do
    alter fun p => { p with
      functions := Bindings.insert name body p.functions
      hashed := p.hashed.filter fun h => h.1 ≠ name }
    return ⟨0, false⟩

/-- Runs a command, with the traps of signals that have arrived in front of it and behind it. A failure
that counts may end the shell, and the last command of a process ends the process. -/
def runStep (ev : Evaluator) (c : Command) (flags : Flags) : Exec Nat := do
  let outcome : Outcome ←
    if (← process).has .noexec then pure ⟨(← process).status, false⟩
    else
      runTraps ev
      let outcome ← runCommand ev flags c
      setStatus outcome.status
      runTraps ev
      pure outcome
  let p ← process
  if flags.last ∨ (outcome.counts ∧ outcome.status ≠ 0 ∧ !flags.tested ∧ p.has .errexit) then
    throw .finish
  return p.status

/-- The evaluator for commands that nest at most so deep. One that nests deeper is killed. -/
def evaluator : Nat → Evaluator
  | 0 => ⟨fun _ _ => throw (.killed 11), fun _ => pure ()⟩
  | n + 1 => ⟨fun c flags => runStep (evaluator n) c flags, fun awaited => runTasks (evaluator n) awaited⟩

end CueScript.Shell
