import CueScript.Host.Basic

/-!
# CueScript.Host.Json — outcomes as JSON documents

An outcome is written as an object with the members `exit_code` and `output`. It is read from such
an object, whose further members are not looked into, or from an array of the two values. Each of
the two members must be there once; an exit code must be an integer literal within 32 bits.
-/

namespace CueScript

/-- The signed 32-bit number of an integer within the range. -/
def exitCode? (i : Int) : Option Int32 :=
  if -Int.pow 2 31 ≤ i ∧ i < Int.pow 2 31 then some (Int32.ofInt i) else none

namespace CommandOutcome

def toNode (o : CommandOutcome) : Json.Node :=
  .ofMembers [("exit_code", .ofInt o.exitCode.toInt), ("output", .ofString o.output)]

def exitCodeOf? : Json.Node → Option Int32
  | .number n => n.int?.bind exitCode?
  | _ => none

def outputOf? : Json.Node → Option String
  | .string s => Json.text? s
  | _ => none

/-- The members of an object with their keys as texts. -/
def keyedMembers? :
    List (List Json.StringUnit × Json.Node) → Option (List (String × Json.Node))
  | [] => some []
  | (k, x) :: ms =>
    match Json.text? k, keyedMembers? ms with
    | some key, some rest => some ((key, x) :: rest)
    | _, _ => none

/-- The value of a member that must be there once. -/
def member? (key : String) (ms : List (String × Json.Node)) : Option Json.Node :=
  match ms.filter fun m => m.1 = key with
  | [(_, node)] => some node
  | _ => none

def ofNode? : Json.Node → Option CommandOutcome
  | .object members => do
    let ms ← keyedMembers? members
    let code ← (← member? "exit_code" ms) |> exitCodeOf?
    let output ← (← member? "output" ms) |> outputOf?
    return ⟨code, output⟩
  | .array [code, output] => do
    return ⟨← exitCodeOf? code, ← outputOf? output⟩
  | _ => none

def ofJson? (text : String) : Option CommandOutcome :=
  (Json.Node.read? text).bind ofNode?

end CommandOutcome

end CueScript
