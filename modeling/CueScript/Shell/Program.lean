import CueScript.Shell.Cat
import CueScript.Shell.Format
import CueScript.Shell.Names
import CueScript.Shell.Test

/-!
# CueScript.Shell.Program — programs that run no other ones

A program writes what its arguments and its input tell it and ends with a status; its reports start
with its name. Programs are found by a path or in the directories of the search path.
-/

namespace CueScript.Shell

/-! ## Search -/

/-- The directories that are searched when nothing names others. -/
def plainSearchPath : Text := "/bin:/usr/bin".toList

/-- Looks a program up in directories and gives the path under which it was found. A missing program
leaves the search going, one that may not be run is remembered. -/
def searchStarted (w : World) (name : Text) (refused : Bool) : List Text → Except OsError String
  | [] => .error (if refused then .permissionDenied else .noEntry)
  | directory :: rest =>
    match programAt w (pathIn directory name) with
    | .ok program => .ok program
    | .error .permissionDenied => searchStarted w name true rest
    | .error .noEntry | .error .notDirectory => searchStarted w name refused rest
    | .error e => .error e

/-- The program that a name stands for outside of a shell: by its path if there is a slash in it, else in
the search path of the variables that it gets. -/
def startedProgram (w : World) (environment : List (Text × Text)) (name : Text) :
    Except OsError String :=
  if name.isEmpty then .error .noEntry
  else if name.contains '/' then programAt w name
  else
    searchStarted w name false
      (partsBetween ':' ((environment.lookup "PATH".toList).getD plainSearchPath))

/-! ## Programs -/

/-- What is wrong with an argument, as the program `printf` reports it. -/
def programFault (argument : Text) : NumberFault → Text
  | .notNumeric => asReport argument ++ ": expected a numeric value".toList
  | .notWhole => asReport argument ++ ": value not completely converted".toList
  | .outOfRange => asReport argument ++ ": Numerical result out of range".toList
  | .moreCharacters s =>
    "warning: ".toList ++ s
      ++ ": character(s) following character constant have been ignored".toList

/-- Whether a fault makes `printf` fail. -/
def NumberFault.isSevere : NumberFault → Bool
  | moreCharacters _ => false
  | _ => true

/-- Writes a format with arguments; what is wrong with them is reported in between. -/
def runPrintfProgram (name : Text) (args : List Text) : Exec Unit := do
  match if args.head? = some ['-', '-'] then args.drop 1 else args with
  | [] => failUsage 1 name "missing operand".toList
  | format :: args =>
    let f := printfParts true format args
    setStatus (if f.parts.any fun
      | .fault _ e => e.isSevere
      | .text _ => false then 1 else 0)
    let left ← f.parts.foldlM (fun (text : List Text) part =>
      match part with
      | .text s => return s :: text
      | .fault argument e => do
        writeOutput 1 name text.reverse.flatten
        report name (programFault argument e)
        return []) []
    writeOutput 1 name left.reverse.flatten
    match f.stop with
    | some (.escape .finish) => setStatus 0
    | some (.directive written) =>
      failProgram 1 name (written ++ ": invalid conversion specification".toList)
    | some (.escape .noDigits) => failProgram 1 name "missing hexadecimal number in escape".toList
    | some (.escape (.noCharacter written)) =>
      failProgram 1 name ("invalid universal character name ".toList ++ written)
    | some (.width argument) =>
      failProgram 1 name ("invalid field width: ".toList ++ asReport argument)
    | some (.precision argument) =>
      failProgram 1 name ("invalid precision: ".toList ++ asReport argument)
    | some .tooWide | some .unfinished => failProgram 1 name "write error".toList
    | none =>
      if let a :: _ := f.rest then
        report name ("warning: ignoring excess arguments, starting with ".toList ++ asReport a)

/-- Why the program `test` has no answer, by the number of its arguments. -/
def programTestError (args : List Text) (e : TestError) : Text :=
  match args, e with
  | _, .illegalNumber s => "invalid integer ".toList ++ asReport s
  | [['-', c], _], _ => asReport ['-', c] ++ ": unary operator expected".toList
  | [_, b], _ => "missing argument after ".toList ++ asReport b
  | [_, o, _], _ => asReport o ++ ": binary operator expected".toList
  | _, .unexpectedOperator s => "extra argument ".toList ++ asReport s
  | _, _ => "missing argument after ".toList ++ asReport (args.getLastD [])

/-- Answers a condition by its status. A closing bracket has to end it when the program is `[`. -/
def runTestProgram (bracket : Bool) (name : Text) (args : List Text) : Exec Unit := do
  if bracket ∧ args.getLast? ≠ some [']'] then failProgram 2 name "missing ']'".toList
  let args := if bracket then args.dropLast else args
  match testCondition (← get) args with
  | .ok answer => setStatus (if answer then 0 else 1)
  | .error e => failProgram 2 name (programTestError args e)

/-- What a program does that runs no other one, under the name that it was started with. -/
def plainProgram? (program : String) (name : Text) : Option (List Text → Exec Unit) :=
  match program with
  | "cat" => some (runCat name)
  | "echo" => some fun args => do
    setStatus 0
    writeOutput 1 name (programEcho true false args)
  | "printf" => some (runPrintfProgram name)
  | "true" => some fun _ => setStatus 0
  | "false" => some fun _ => setStatus 1
  | "test" => some (runTestProgram false name)
  | "[" => some (runTestProgram true name)
  | _ => none

end CueScript.Shell
