import CueScript.Cli.Evaluator
import CueScript.Syntax.Json

/-!
# CueScript.Cli.Parser — printing the parse tree of one line

The input is a loop header when it starts with `for` and a blank, and an expression otherwise;
blanks around it do not count. Nothing at all is printed as `null`.
-/

namespace CueScript.Cli

/-- Whether a text opens like a loop header. -/
def opensLoop (text : List Char) : Bool :=
  match ['f', 'o', 'r'].isPrefixOf? text with
  | some (c :: _) => Text.isBlank c
  | _ => false

/-- The document of the construct that a text without outer blanks spells. A loop header is printed
as a table. -/
def parseTree (text : List Char) : Except SyntaxError Json.Node :=
  if text.isEmpty then .ok .null
  else if opensLoop text then (LoopHeader.parse (String.ofList text)).map LoopHeader.toTable
  else (Expression.parse (String.ofList text)).map Expression.toNode

/-- The program: from its input to its ending. -/
def parser (input : List UInt8) : Ending :=
  match Text.Utf8.decode? input with
  | none => .failure "failed to read stdin: stream did not contain valid UTF-8"
  | some text =>
    match parseTree (Text.trim text) with
    | .ok node => .success (node.compact ++ "\n")
    | .error e => .failure e.message

end CueScript.Cli
