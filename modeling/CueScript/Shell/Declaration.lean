import CueScript.Shell.Arguments
import CueScript.Shell.Setting
import CueScript.Shell.Variables

/-!
# CueScript.Shell.Declaration — variables, options and arguments of the shell

1. **Variables** are marked, made local and taken away.
2. **Options** of the shell are set by letters and names; what follows them are its arguments.
3. **Arguments** are dropped, or read as options by `getopts`, which keeps its place between its
   calls.
-/

namespace CueScript.Shell

/-! ## Variables -/

/-- Marks a variable, and gives it a value if the argument has one. -/
def markVariable (constant : Bool) (argument : Text) : Exec Unit := do
  let marking : Marking := { Marking.none with constant, exported := !constant }
  let (name, value) := splitAssignment argument
  let p ← process
  match if value.isSome then none else p.vars.lookup name with
  | some old =>
    let new : Variable := ⟨old.value, old.exported || !constant, old.constant || constant, old.fixed⟩
    alter fun p => { p with vars := Bindings.insert name new p.vars }
  | none => storeNamed name value marking

/-- Marks variables that programs get or that must not change; shows those that are marked when none
is named. -/
def runMark (command : Text) (constant : Bool) (args : List Text) : Exec Nat := do
  let (option, args) ← firstOption ['p'] args
  if option.isSome ∨ args.isEmpty then
    put ((← process).listing command fun v => if constant then v.constant else v.exported)
  else args.forM (markVariable constant)
  return 0

def runLocal (args : List Text) : Exec Nat := do
  if (← process).hidden.isEmpty then fail "not in a function".toList
  args.forM fun a => makeLocal a false
  return 0

def runUnset (args : List Text) : Exec Nat := do
  let (options, args) ← readOptions ['v', 'f'] args
  args.forM fun name =>
    if (options.getLast?.map Prod.fst) = some 'f' then
      alter fun p => { p with functions := p.functions.filter fun f => f.1 ≠ name }
    else storeNamed name none .none
  return 0

/-! ## Options -/

def applyLetter (on : Bool) (c : Char) : Exec Unit :=
  match Setting.ofLetter? c with
  | some o => alter fun p => { p with settings := Setting.setLetter on o p.settings }
  | none => failOption c

/-- Sets an option by its name, or shows all of them when no name is left. -/
def applyName (on : Bool) : List Text → Exec Unit
  | [] => do
    let settings := (← process).settings
    put (if on then Setting.columns settings else Setting.commands settings)
  | name :: _ =>
    match Setting.ofName? name with
    | some o => alter fun p => { p with settings := Setting.set on o p.settings }
    | none => fail ("Illegal option -o ".toList ++ name)

/-- What the options in front of arguments leave. -/
structure OptionsRead where
  /-- The arguments behind the options. -/
  rest : List Text
  /-- Whether the options end in a double dash. -/
  isMarked : Bool
  /-- Whether commands are given as an argument. -/
  hasCommands : Bool

/-- Sets the options that letters name. Each `o` takes a name off the arguments. Gives those that are
left, and whether commands are given as an argument, which a shell may be told at its start. -/
def applyLetters (atStart on : Bool) : Text → List Text → Exec (List Text × Bool)
  | [], args => return (args, false)
  | c :: cs, args => do
    if atStart ∧ c = 'c' then
      let (args, _) ← applyLetters atStart on cs args
      return (args, true)
    else if atStart ∧ c = 'l' then applyLetters atStart on cs args
    else if c = 'o' then
      applyName on args
      applyLetters atStart on cs (args.drop 1)
    else
      applyLetter on c
      applyLetters atStart on cs args

/-- Sets the options in front of arguments. A single dash takes two options away and ends them. The
bound is on the number of arguments. -/
def applyOptions (atStart : Bool) : Nat → List Text → Exec OptionsRead
  | n + 1, a :: args =>
    match a with
    | ['-', '-'] => return ⟨args, true, false⟩
    | ['-'] => do
      if !atStart then
        alter fun p => { p with settings := p.settings.filter fun o => o ≠ .xtrace ∧ o ≠ .verbose }
      return ⟨args, false, false⟩
    | sign :: letters => do
      if sign = '-' ∨ sign = '+' then
        let (args, hasCommands) ← applyLetters atStart (sign == '-') letters args
        let read ← applyOptions atStart n args
        return { read with hasCommands := hasCommands || read.hasCommands }
      else return ⟨a :: args, false, false⟩
    | [] => return ⟨a :: args, false, false⟩
  | _, args => return ⟨args, false, false⟩

/-- Takes the control of jobs back from a shell without a terminal. -/
def checkMonitor : Exec Unit := do
  let p ← process
  if p.has .monitor ∧ p.pid = p.shell then
    alter fun p => { p with settings := Setting.set false .monitor p.settings }
    warn "can't access tty; job control turned off".toList

def setArguments (args : List Text) : Exec Unit :=
  alter fun p => { p with args, optionIndex := 1, optionOffset := none }

/-- Sets options and arguments of the shell, or shows its variables. -/
def runSet (args : List Text) : Exec Nat := do
  if args.isEmpty then put ((← process).listing [] fun v => v.value.isSome)
  else
    let read ← applyOptions false (args.length + 1) args
    if read.isMarked ∧ read.rest.isEmpty then setArguments []
    checkMonitor
    if !read.rest.isEmpty then setArguments read.rest
  return 0

/-! ## Arguments -/

def runShift (args : List Text) : Exec Nat := do
  let count ← match args with
    | [] => pure 1
    | n :: _ => argumentNumber n
  let p ← process
  if p.args.length < count then fail "can't shift that many".toList
  setArguments (p.args.drop count)
  return 0

structure OptionFound where
  /-- The letter that the variable gets; a question mark when there is none. -/
  letter : Char
  /-- The value that comes with the letter, or the letter itself when it is at fault. -/
  value : Option Text
  /-- A report. -/
  report : Text
  /-- The place behind the option: the next argument, and how far into the one in front of it. -/
  index : Nat
  offset : Option Nat
  /-- Whether there are no more options. -/
  isLast : Bool

/-- Where the next option letter stands: the characters from it on, and the place of the argument
behind them. The flag tells that there is none. -/
def nextLetter (args : List Text) (index : Nat) (offset : Option Nat) : Text × Nat × Bool :=
  let inside : Text :=
    match offset with
    | some k => if index ≤ 1 then [] else (args[index - 2]?.getD []).drop k
    | none => []
  if !inside.isEmpty then (inside, index, false)
  else
    match args[index - 1]? with
    | some ['-', '-'] => ([], index + 1, true)
    | some ('-' :: c :: cs) => (c :: cs, index + 1, false)
    | _ => ([], index, true)

/-- The letters that follow an option letter among the letters that are known. -/
def behindLetter? (c : Char) : Text → Option Text
  | [] => none
  | k :: rest =>
    if k = c then some rest
    else
      match rest with
      | ':' :: rest => behindLetter? c rest
      | rest => behindLetter? c rest

def nextOption (known : Text) (args : List Text) (index : Nat) (offset : Option Nat) :
    OptionFound :=
  let quiet := known.head? = some ':'
  let (letters, next, isLast) := nextLetter args index offset
  match letters with
  | [] => ⟨'?', none, [], next, none, isLast⟩
  | c :: rest =>
    let length := (args[next - 2]?.getD []).length
    let here : Option Nat := some (length - rest.length)
    let faulty (letter : Char) (report : Text) : OptionFound :=
      if quiet then ⟨letter, some [c], [], next, here, false⟩
      else ⟨'?', none, report, next, here, false⟩
    match behindLetter? c known with
    | none => faulty '?' ("Illegal option -".toList ++ [c, '\n'])
    | some (':' :: _) =>
      if !rest.isEmpty then ⟨c, some rest, [], next, none, false⟩
      else
        match args[next - 1]? with
        | some value => ⟨c, some value, [], next + 1, none, false⟩
        | none =>
          { faulty ':' ("No arg for -".toList ++ c :: " option\n".toList) with offset := none }
    | some _ => ⟨c, some [], [], next, here, false⟩

/-- Reads the next option of the arguments of the shell, or of those that are given, into a
variable. -/
def runGetopts (args : List Text) : Exec Nat := do
  match args with
  | known :: name :: given => do
    let p ← process
    let read := if given.isEmpty then p.args else given
    let inside := p.optionIndex ≤ read.length + 1
    let found := nextOption known read (if inside then p.optionIndex else 1)
      (if inside then p.optionOffset else none)
    alter fun p => { p with optionIndex := Nat.pow 2 31 }
    if !found.isLast then
      writeAnyway 2 found.report
      storeNamed "OPTARG".toList found.value .none
    store "OPTIND".toList (some (natText found.index)) .none false
    storeNamed name (some [found.letter]) .none
    alter fun p => { p with optionIndex := found.index, optionOffset := found.offset }
    return if found.isLast then 1 else 0
  | _ => fail "Usage: getopts optstring var [arg...]".toList

end CueScript.Shell
