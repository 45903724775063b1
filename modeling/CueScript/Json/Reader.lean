import CueScript.Json.Node
import CueScript.Json.Token

/-!
# CueScript.Json.Reader — from tokens to a document

The containers that are open while a document is read stand on an explicit stack of frames; `step`
takes one token. A document is complete when a value is complete and no container is open.
-/

namespace CueScript.Json

/-- An open container that waits for a value; what it holds so far stands last first. -/
inductive Frame where
  | array (done : List Node)
  | object (done : List (List StringUnit × Node)) (key : List StringUnit)
deriving Repr

/-- What has been read, and what may come next. -/
inductive ReadState where
  /-- A value. -/
  | value (stack : List Frame)
  /-- The first item of an array, or its end. -/
  | firstItem (stack : List Frame)
  /-- The first key of an object, or its end. -/
  | firstKey (stack : List Frame)
  /-- A further key of an object. -/
  | key (stack : List Frame) (done : List (List StringUnit × Node))
  /-- The colon behind a key. -/
  | colon (stack : List Frame) (done : List (List StringUnit × Node)) (key : List StringUnit)
  /-- A value is complete: a comma, the end of the container, or the end of the document. -/
  | complete (stack : List Frame) (node : Node)
deriving Repr

namespace ReadState

/-- Takes the first token of a value. -/
def startValue (stack : List Frame) : Token → Option ReadState
  | .null => some (.complete stack .null)
  | .bool b => some (.complete stack (.bool b))
  | .number n => some (.complete stack (.number n))
  | .string s => some (.complete stack (.string s))
  | .arrayOpen => some (.firstItem stack)
  | .objectOpen => some (.firstKey stack)
  | _ => none

def step : ReadState → Token → Option ReadState
  | .value stack, t => startValue stack t
  | .firstItem stack, .arrayClose => some (.complete stack (.array []))
  | .firstItem stack, t => startValue (.array [] :: stack) t
  | .firstKey stack, .objectClose => some (.complete stack (.object []))
  | .firstKey stack, .string k => some (.colon stack [] k)
  | .key stack done, .string k => some (.colon stack done k)
  | .colon stack done k, .colon => some (.value (.object done k :: stack))
  | .complete (.array done :: stack) x, .comma => some (.value (.array (x :: done) :: stack))
  | .complete (.array done :: stack) x, .arrayClose =>
    some (.complete stack (.array (x :: done).reverse))
  | .complete (.object done k :: stack) x, .comma => some (.key stack ((k, x) :: done))
  | .complete (.object done k :: stack) x, .objectClose =>
    some (.complete stack (.object ((k, x) :: done).reverse))
  | _, _ => none

/-- The document that was read, when nothing is open or awaited. -/
def result? : ReadState → Option Node
  | .complete [] node => some node
  | _ => none

end ReadState

def Node.ofTokens? (ts : List Token) : Option Node :=
  (ts.foldlM ReadState.step (.value [])).bind ReadState.result?

def Node.read? (s : String) : Option Node :=
  (tokens? s.toList).bind Node.ofTokens?

end CueScript.Json
