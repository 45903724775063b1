import CueScript.Shell.Bounds
import CueScript.Shell.Declaration
import CueScript.Shell.Directory
import CueScript.Shell.Format
import CueScript.Shell.Input
import CueScript.Shell.Jobs
import CueScript.Shell.Names
import CueScript.Shell.Test

/-!
# CueScript.Shell.Builtin — commands that the shell carries out itself

1. **Output**: `printf` and `test`; others only put a text out.
2. **Control**: leaving loops, functions and the shell.
3. **Names**: what commands and other names stand for.
4. **Table** of the commands that run no other ones.
-/

namespace CueScript.Shell

/-! ## Output -/

/-- What is wrong with an argument of `printf`, for a reader. -/
def faultText (argument : Text) : NumberFault → Text
  | .notNumeric => argument ++ ": expected numeric value".toList
  | .notWhole => argument ++ ": not completely converted".toList
  | .outOfRange => argument ++ ": Numerical result out of range".toList
  | .moreCharacters _ => argument

/-- Puts out a format with arguments. What is wrong with them is reported at once. -/
def runPrintf (args : List Text) : Exec Nat := do
  match ← withoutOptions args with
  | [] => fail "usage: printf format [arg ...]".toList
  | format :: args =>
    let f := printfParts false format args
    let status ← f.parts.foldlM (fun status part =>
      match part with
      | .text s => do
        put s
        return status
      | .fault argument e => do
        warn (faultText argument e)
        return 1) 0
    match f.stop with
    | none | some (.escape .finish) => return status
    | some (.directive written) => fail (written ++ ": invalid directive".toList)
    | some .unfinished => fail "missing format character".toList
    | some _ => fail "xvsnprintf failed".toList

/-- Answers a condition by its status, which a closing bracket ends on demand. -/
def runTest (bracket : Bool) (args : List Text) : Exec Nat := do
  if bracket ∧ args.getLast? ≠ some [']'] then fail "missing ]".toList
  match testCondition (← get) (if bracket then args.dropLast else args) with
  | .ok answer => return if answer then 0 else 1
  | .error e => fail e.message

/-! ## Control -/

/-- Leaves loops or goes on with their next turn; outside of loops nothing happens. -/
def runLoopExit (skip : Nat → Skip) (args : List Text) : Exec Nat := do
  let levels ← match args with
    | [] => pure 1
    | n :: _ => do
      let levels ← argumentNumber n
      if levels = 0 then failNumber n
      pure levels
  let reach := min levels (← process).loops
  if 0 < reach then alter fun p => { p with skip := skip reach }
  return 0

/-- Ends a function or a file, with the last status or a given one. -/
def runReturn : List Text → Exec Nat
  | [] => do
    alter fun p => { p with skip := .rest }
    return (← process).status
  | n :: _ => do
    let status ← argumentNumber n
    alter fun p => { p with skip := .function }
    return status

/-- Ends the shell, with the last status or a given one. -/
def runExit (args : List Text) : Exec Nat := do
  if let n :: _ := args then
    let status ← argumentNumber n
    alter fun p => { p with saved := some status }
  throw .exit

/-! ## Names -/

/-- Shows texts that names stand for, or makes names stand for texts. -/
def runAlias (args : List Text) : Exec Nat := do
  if args.isEmpty then
    let aliases := (← process).aliases
    put ((List.range 39).flatMap fun slot =>
      (aliases.filter fun a => Process.chainOf 39 a.1 = slot).flatMap fun a => aliasText a ++ ['\n'])
    return 0
  else
    args.foldlM (fun status a => do
      match (a.drop 1).dropWhile (· != '=') with
      | _ :: value =>
        let name := a.take (a.length - value.length - 1)
        alter fun p => { p with aliases := Bindings.insert name value p.aliases }
        return status
      | [] =>
        match (← process).aliases.lookup a with
        | some value =>
          put (aliasText (a, value) ++ ['\n'])
          return status
        | none =>
          writeAnyway 2 ("alias: ".toList ++ a ++ " not found\n".toList)
          return 1) 0

/-- Makes names stand for themselves again. -/
def runUnalias (args : List Text) : Exec Nat := do
  let (option, args) ← firstOption ['a'] args
  if option.isSome then
    alter fun p => { p with aliases := [] }
    return 0
  else
    args.foldlM (fun status a => do
      if ((← process).aliases.lookup a).isSome then
        alter fun p => { p with aliases := p.aliases.filter fun b => b.1 ≠ a }
        return status
      else
        writeAnyway 2 ("unalias: ".toList ++ a ++ " not found\n".toList)
        return 1) 0

/-- Shows where programs were found, looks programs up, or forgets them. -/
def runHash (args : List Text) : Exec Nat := do
  let (option, args) ← firstOption ['r'] args
  if option.isSome then
    alter fun p => { p with hashed := [] }
    return 0
  else if args.isEmpty then
    let p ← process
    put ((List.range 31).flatMap fun slot =>
      (p.hashed.filter fun h => Process.chainOf 31 h.1 = slot).flatMap fun h =>
        pathIn (p.searchPath[h.2.1]?.getD []) h.1 ++ (if h.2.2 then ['*'] else []) ++ ['\n'])
    return 0
  else
    args.foldlM (fun status name => do
      alter fun p => { p with hashed := p.hashed.filter fun h => h.1 ≠ name }
      match ← findCommand true false name with
      | .missing e =>
        warn (name ++ ": ".toList ++ (startFailure e).toList)
        return 1
      | _ => return status) 0

/-- Says what names stand for. -/
def runType (args : List Text) : Exec Nat :=
  args.foldlM (fun status name => do return status ||| (← describe name false true)) 0

/-- Says what a name stands for, at length or not. The rest of the command, which runs others, is seen to
elsewhere. -/
def runDescribe (args : List Text) : Exec Nat := do
  let (options, args) ← readOptions "pvV".toList args
  let letters := options.map Prod.fst
  match args with
  | name :: _ =>
    if letters.contains 'v' ∨ letters.contains 'V' then
      describe name (letters.contains 'p') (letters.contains 'V')
    else return 0
  | [] => return 0

/-! ## Table -/

/-- What a command of the shell does that runs no other ones. -/
def plainBuiltin? (name : String) : Option (List Text → Exec Nat) :=
  match name with
  | ":" | "true" => some fun _ => return 0
  | "false" => some fun _ => return 1
  | "echo" => some fun args => do
    put (echoText args)
    return 0
  | "printf" => some runPrintf
  | "test" => some (runTest false)
  | "[" => some (runTest true)
  | "break" => some (runLoopExit .leave)
  | "continue" => some (runLoopExit .next)
  | "return" => some runReturn
  | "exit" => some runExit
  | "cd" | "chdir" => some runCd
  | "pwd" => some runPwd
  | "umask" => some runUmask
  | "ulimit" => some runUlimit
  | "export" => some (runMark "export".toList false)
  | "readonly" => some (runMark "readonly".toList true)
  | "local" => some runLocal
  | "unset" => some runUnset
  | "set" => some runSet
  | "shift" => some runShift
  | "getopts" => some runGetopts
  | "read" => some runRead
  | "trap" => some runTrap
  | "kill" => some runKill
  | "jobs" => some runJobs
  | "fg" | "bg" => some runControl
  | "alias" => some runAlias
  | "unalias" => some runUnalias
  | "hash" => some runHash
  | "type" => some runType
  | "command" => some runDescribe
  | "times" => some fun _ => do
    put "0m0.000000s 0m0.000000s\n0m0.000000s 0m0.000000s\n".toList
    return 0
  | _ => none

end CueScript.Shell
