import CueScript.Json.Number
import CueScript.Json.Text

/-!
# CueScript.Json.Node — JSON documents as trees

A `Node` keeps a document as it is written: literals of numbers and strings are not interpreted, and
members of objects stand in their order, repeated keys included.

1. **Size**: `depth` counts nested containers.
2. **Order**: `sortKeys` puts the members of every object in the order of their keys' code points.
3. **Tables**: `ofTable` puts one member after the other where its key belongs.
-/

namespace CueScript.Json

/-- A JSON document. -/
inductive Node where
  | null
  | bool (b : Bool)
  | number (n : Number)
  | string (units : List StringUnit)
  | array (items : List Node)
  | object (members : List (List StringUnit × Node))
deriving Repr

/-- The number of a code point or of a surrogate. -/
def StringUnit.code : StringUnit → Nat
  | .char c => c.toNat
  | .surrogate offset => 0xD800 + offset.val

namespace Node

def ofString (s : String) : Node :=
  .string (unitsOf s)

def ofInt (i : Int) : Node :=
  .number (.ofInt i)

def ofMembers (ms : List (String × Node)) : Node :=
  .object (ms.map fun m => (unitsOf m.1, m.2))

/-! ## Size -/

mutual
/-- The greatest number of containers that are open at once. -/
def depth : Node → Nat
  | .null | .bool _ | .number _ | .string _ => 0
  | .array items => depthItems items + 1
  | .object members => depthMembers members + 1

def depthItems : List Node → Nat
  | [] => 0
  | x :: xs => max (depth x) (depthItems xs)

def depthMembers : List (List StringUnit × Node) → Nat
  | [] => 0
  | (_, x) :: ms => max (depth x) (depthMembers ms)
end

/-! ## Order -/

/-- Whether a key comes before another or is the same, code point by code point. -/
def keyLe : List StringUnit → List StringUnit → Bool
  | [], _ => true
  | _ :: _, [] => false
  | a :: as, b :: bs => a.code < b.code || (a.code = b.code && keyLe as bs)

mutual
/-- Sorts the members of every object by their keys. -/
def sortKeys : Node → Node
  | .array items => .array (sortItems items)
  | .object members => .object ((sortMembers members).mergeSort fun a b => keyLe a.1 b.1)
  | node => node

def sortItems : List Node → List Node
  | [] => []
  | x :: xs => sortKeys x :: sortItems xs

def sortMembers : List (List StringUnit × Node) → List (List StringUnit × Node)
  | [] => []
  | (k, x) :: ms => (k, sortKeys x) :: sortMembers ms
end

/-! ## Tables -/

/-- Puts a member into a table with its keys in order. A key that is there already gets the new
value. -/
def insertMember (key : List StringUnit) (x : Node) :
    List (List StringUnit × Node) → List (List StringUnit × Node)
  | [] => [(key, x)]
  | (k, y) :: ms =>
    if k = key then (k, x) :: ms
    else if keyLe key k then (key, x) :: (k, y) :: ms
    else (k, y) :: insertMember key x ms

/-- The object node of the table that the given members are put into, one after the other. -/
def ofTable (ms : List (String × Node)) : Node :=
  .object (ms.foldl (fun table m => insertMember (unitsOf m.1) m.2 table) [])

end Node

end CueScript.Json
