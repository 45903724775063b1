import CueScript.Cli.Evaluator
import CueScript.Cli.Parser
import CueScript.Shell.Executor

/-!
# CueScript.Main — the two programs

`parse` alone prints the parse tree of standard input. Any other command line is for the evaluator:
the files that it names are read first, and commands run in the world that is built in.
-/

namespace CueScript.Cli

/-- The report of why a file can not be read. -/
def readFailure : IO.Error → String
  | .noFileOrDirectory _ _ _ => OsError.noEntry.message
  | .permissionDenied _ _ _ => OsError.permissionDenied.message
  | .inappropriateType _ _ _ => OsError.isDirectory.message
  | e => toString e

def readFiles (paths : List String) : IO (List (String × Except String (List UInt8))) :=
  paths.mapM fun (path : String) => do
    let content ← (IO.FS.readBinFile path).toBaseIO
    return (path, match content with
      | .ok bytes => .ok bytes.toList
      | .error e => .error (readFailure e))

/-- Reads a stream to its end, behind what was read before. -/
partial def readBytes (input : IO.FS.Stream) (before : ByteArray) : IO ByteArray := do
  let chunk ← input.read 65536
  if chunk.isEmpty then return before else readBytes input (before ++ chunk)

/-- Files that were read before. -/
def Files.ofList (contents : List (String × Except String (List UInt8))) : Files := fun path =>
  (contents.lookup path).getD (.error OsError.noEntry.message)

/-- Ends a program: prints its output or its failure, and gives its exit code. -/
def Ending.report (program : String) : Ending → IO UInt32
  | success stdout => do
    IO.print stdout
    return 0
  | failure message => do
    IO.eprintln (program ++ ": " ++ message)
    return 1
  | usage => do
    IO.eprintln (program ++ ": wrong usage")
    return 2

end CueScript.Cli

open CueScript Cli in
/-- Runs the program that the arguments ask for. -/
def main (args : List String) : IO UInt32 := do
  if args = ["parse"] then
    let input ← readBytes (← IO.getStdin) .empty
    (parser input.toList).report "assistant-lang-parse"
  else
    let contents ← readFiles ((invocation? args).map Invocation.paths |>.getD [])
    (evaluator World.base.executor (Files.ofList contents) args).report "assistant-eval"
