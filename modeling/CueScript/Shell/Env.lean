import CueScript.Shell.Program

/-!
# CueScript.Shell.Env — the program that changes variables for another one

1. **Requests**: options, and a text that may hold further arguments.
2. **Variables** are taken away and set in order.
-/

namespace CueScript.Shell

/-! ## Requests -/

def envOptions : OptionTable where
  options :=
    [⟨"ignore-environment", 'i', .never⟩, ⟨"null", '0', .never⟩, ⟨"unset", 'u', .always⟩,
      ⟨"chdir", 'C', .always⟩, ⟨"default-signal", '!', .optional⟩, ⟨"ignore-signal", '?', .optional⟩,
      ⟨"block-signal", '*', .optional⟩, ⟨"list-signal-handling", '=', .never⟩,
      ⟨"debug", 'v', .never⟩, ⟨"split-string", 'S', .always⟩]
  permutes := false
  final := ['S']

/-- A text while it is split into words. -/
structure Splitting where
  /-- The open word, last character first. -/
  word : Option Text
  /-- The words in front of it, last one first. -/
  words : List Text
  single : Bool
  double : Bool
  /-- What is told to somebody who asks for reports. -/
  log : List Text

namespace Splitting

def add (s : Splitting) (text : Text) : Splitting :=
  { s with word := some (text.reverse ++ s.word.getD []) }

def close (s : Splitting) : Splitting :=
  { s with word := none, words := (s.word.map List.reverse).toList ++ s.words }

/-- The name of a variable between braces, behind a dollar sign. -/
def bracedName? (s : Text) : Option (Text × Text) :=
  match s with
  | '\x7b' :: s =>
    match splitName s with
    | (c :: cs, '\x7d' :: rest) => some (c :: cs, rest)
    | _ => none
  | _ => none

/-- The character that a letter behind a backslash stands for. -/
def escape? (c : Char) : Option Char :=
  if c ∈ ['"', '#', '$', '\'', '\\'] then some c
  else
    [('f', '\x0c'), ('n', '\n'), ('r', '\r'), ('t', '\t'), ('v', '\x0b')].lookup c

/-- Splits a text into words. Quotes, escapes and names of variables in braces count; the error is the
report of a problem. The bound is on the number of characters. -/
def split (environment : List (Text × Text)) : Nat → Splitting → Text → Except Text Splitting
  | 0, s, _ => .ok s.close
  | _, s, [] =>
    if s.single ∨ s.double then .error "no terminating quote in -S string".toList else .ok s.close
  | n + 1, s, c :: rest =>
    let quoted := s.single || s.double
    let plain := split environment n (s.add [c]) rest
    if c = '\'' then
      if s.double then plain
      else split environment n { s.add [] with single := !s.single } rest
    else if c = '"' then
      if s.single then plain
      else split environment n { s.add [] with double := !s.double } rest
    else if isSpace c then
      if quoted then plain else split environment n s.close rest
    else if c = '#' ∧ s.word.isNone then .ok s.close
    else if c = '\\' then
      match rest with
      | [] =>
        if s.single then plain else .error "invalid backslash at end of string in -S".toList
      | d :: after =>
        if s.single ∧ d ≠ '\\' ∧ d ≠ '\'' then plain
        else if d = '_' then
          if s.double then split environment n (s.add [' ']) after
          else split environment n s.close after
        else if d = 'c' then
          if s.double then .error "'\\c' must not appear in double-quoted -S string".toList
          else .ok s.close
        else
          match escape? d with
          | some e => split environment n (s.add [e]) after
          | none => .error ("invalid sequence '\\".toList ++ [d] ++ "' in -S".toList)
    else if c = '$' ∧ !s.single then
      match bracedName? rest with
      | none =>
        .error ("only $\x7bVARNAME\x7d expansion is supported, error at: ".toList ++ c :: rest)
      | some (name, after) =>
        match environment.lookup name with
        | some value =>
          let log := "expanding $\x7b".toList ++ name ++ "\x7d into ".toList ++ asReport value
          split environment n { s.add value with log := log :: s.log } after
        | none =>
          let log := "replacing $\x7b".toList ++ name ++ "\x7d with null string".toList
          split environment n { s with log := log :: s.log } after
    else plain

end Splitting

structure EnvRequest where
  options : List GivenOption
  args : List Text
  /-- Lines for somebody who asks for reports. -/
  log : List Text

/-- Reads the arguments. The bound is on the number of texts that hold further arguments. The error is
the report of a problem with its status, and whether it is one of the options. -/
def readRequest (environment : List (Text × Text)) :
    Nat → List GivenOption → List Text → Except (Text × Bool) EnvRequest
  | 0, options, args => .ok ⟨options, args, []⟩
  | n + 1, before, args => do
    let (options, args) ← (envOptions.read args).mapError fun e => (e, true)
    let options := before ++ options
    match options.getLast? with
    | some ('S', some text) =>
      let split ← (Splitting.split environment (text.length + 1) ⟨none, [], false, false, []⟩
        text).mapError fun e => (e, false)
      let words := split.words.reverse
      let shown := words.mapIdx fun i w =>
        (if i = 0 then " into:    " else "     &    ").toList ++ asReport w
      let log := if options.any fun o => o.1 = 'v' then
          split.log.reverse ++ ("split -S:  ".toList ++ asReport text) :: shown
        else []
      let request ← readRequest environment n options.dropLast (words ++ args)
      return { request with log := log ++ request.log }
    | _ => return ⟨options, args, []⟩

/-! ## Variables -/

def setVariables (environment : List (Text × Text)) (assignments : List Text) : List (Text × Text) :=
  assignments.foldl (fun vars a =>
    Bindings.insert (a.takeWhile (· != '=')) ((a.dropWhile (· != '=')).drop 1) vars) environment

/-- Writes reports for somebody who asks for them. -/
def writeLog (debug : Bool) (lines : List Text) : Exec Unit := do
  if debug then writeAnyway 2 (lines.flatMap fun l => l ++ ['\n'])

/-- Changes variables and runs a program with them, or shows them. `run` runs a program under a name. -/
def runEnv (run : String → Text → List Text → List (Text × Text) → Exec Unit)
    (name : Text) (args : List Text) (environment : List (Text × Text)) : Exec Unit := do
  let request ← match readRequest environment (args.length + 8) [] args with
    | .ok request => pure request
    | .error (e, isUsage) => if isUsage then failUsage 125 name e else failProgram 125 name e
  let has (c : Char) : Bool := request.options.any fun o => o.1 = c
  let values (c : Char) : List Text := request.options.filterMap fun o => if o.1 = c then o.2 else none
  let dash := request.args.head? = some ['-']
  let args := if dash then request.args.drop 1 else request.args
  let clean := has 'i' || dash
  writeLog (has 'v') request.log
  if clean then writeLog (has 'v') ["cleaning environ".toList]
  else
    (values 'u').forM fun u => do
      writeLog (has 'v') ["unset:    ".toList ++ u]
      if u.isEmpty ∨ u.contains '=' then
        failProgram 125 name ("cannot unset ".toList ++ asReport u ++ ": Invalid argument".toList)
  let assignments := args.takeWhile (·.contains '=')
  writeLog (has 'v') (assignments.map ("setenv:   ".toList ++ ·))
  let vars := setVariables (if clean then [] else environment.filter fun v => !(values 'u').contains v.1)
    assignments
  match args.drop assignments.length with
  | [] =>
    if !(values 'C').isEmpty then
      failUsage 125 name "must specify command with --chdir (-C)".toList
    let lineEnd := if has '0' then '\x00' else '\n'
    setStatus 0
    writeOutput 125 name (vars.flatMap fun v => v.1 ++ '=' :: v.2 ++ [lineEnd])
  | command :: rest =>
    if has '0' then failUsage 125 name "cannot specify --null (-0) with command".toList
    if let some directory := (values 'C').getLast? then
      writeLog (has 'v') ["chdir:    ".toList ++ asReport directory]
      let world := (← get).world
      match world.find (ofBytes directory) with
      | .ok (place, .directory) => alter fun p => { p with place, directory := none }
      | found =>
        let e := match found with
          | .error e => e
          | .ok _ => .notDirectory
        failProgram 125 name ("cannot change directory to ".toList ++ asReport directory ++ ": ".toList
          ++ e.phrase.toList)
    writeLog (has 'v') (("executing: ".toList ++ command) ::
      (command :: rest).mapIdx fun i a => "   arg[".toList ++ natText i ++ "]= ".toList ++ asReport a)
    match startedProgram (← get).world vars command with
    | .ok program => run program command rest vars
    | .error e =>
      report name (asReport command ++ ": ".toList ++ e.phrase.toList)
      if e = .noEntry ∧ command.any isSpace then
        report name "use -[v]S to pass options in shebang lines".toList
      setStatus (if e = .noEntry then 127 else 126)

end CueScript.Shell
