import CueScript.Json.Layout
import CueScript.Json.Reader
import CueScript.Value.Basic

/-!
# CueScript.Value.Json — values as JSON documents

1. **Writing**: texts become strings, truth values literals, lists arrays, mappings objects.
2. **Reading**: every document denotes a value when its strings are texts and its numbers are in
   range; null is the empty text, a number the text that it stands for, and of members with one key
   the last value counts, at the place of the first. Documents with more than 127 containers open at
   once are refused.
3. **Display**: texts and truth values as they are, structures as JSON.
-/

namespace CueScript

namespace Value

/-! ## Writing -/

mutual
def toNode : Value → Json.Node
  | .text s => .ofString s
  | .bool b => .bool b
  | .list items => .array (nodesOf items)
  | .mapping entries => .object (membersOf entries)

def nodesOf : List Value → List Json.Node
  | [] => []
  | x :: xs => toNode x :: nodesOf xs

def membersOf : List (String × Value) → List (List Json.StringUnit × Json.Node)
  | [] => []
  | (k, x) :: xs => (Json.unitsOf k, toNode x) :: membersOf xs
end

/-- The JSON text of a value, without white space. -/
def toJson (v : Value) : String :=
  v.toNode.compact

/-! ## Reading -/

mutual
def ofNode? : Json.Node → Option Value
  | .null => some empty
  | .bool b => some (.bool b)
  | .number n => n.text?.map .text
  | .string s => (Json.text? s).map .text
  | .array items => (itemsOf? items).map .list
  | .object members => (pairsOf? members).map fun ps => .mapping (Bindings.ofPairs ps)

def itemsOf? : List Json.Node → Option (List Value)
  | [] => some []
  | x :: xs =>
    match ofNode? x, itemsOf? xs with
    | some v, some vs => some (v :: vs)
    | _, _ => none

/-- The keys and values of members, in order and with repeated keys. -/
def pairsOf? : List (List Json.StringUnit × Json.Node) → Option (List (String × Value))
  | [] => some []
  | (k, x) :: ms =>
    match Json.text? k, ofNode? x, pairsOf? ms with
    | some key, some v, some ps => some ((key, v) :: ps)
    | _, _, _ => none
end

/-- Documents are read up to this depth. -/
def maxDepth : Nat := 127

def ofJson? (text : String) : Option Value :=
  match Json.Node.read? text with
  | some node => if node.depth ≤ maxDepth then ofNode? node else none
  | none => none

/-- The entries of the mapping that a JSON text denotes; `none` when it denotes something else. -/
def entriesOfJson? (text : String) : Option (List (String × Value)) :=
  match ofJson? text with
  | some (.mapping entries) => some entries
  | _ => none

/-! ## Display -/

/-- A value as it is shown and exported. -/
def display : Value → String
  | .text s => s
  | .bool true => "true"
  | .bool false => "false"
  | v => v.toJson

end Value

end CueScript
