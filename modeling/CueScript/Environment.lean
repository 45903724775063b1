import CueScript.Value.Json

/-!
# CueScript.Environment — the variables of a run

An environment binds names to values and keeps the order in which the names were first bound. Names
are used as they are given; the readers of `CueScript.Syntax` take the spelling off.
-/

namespace CueScript

/-- Variables with their values, in the order in which they were first bound. -/
structure Environment where
  bindings : List (String × Value)
deriving Repr, DecidableEq

namespace Environment

def empty : Environment := ⟨[]⟩

def get? (env : Environment) (name : String) : Option Value :=
  Bindings.find? name env.bindings

def contains (env : Environment) (name : String) : Bool :=
  (env.get? name).isSome

/-- Binds a variable; a bound one keeps its place. -/
def set (env : Environment) (name : String) (value : Value) : Environment :=
  ⟨Bindings.insert name value env.bindings⟩

def ofPairs (ps : List (String × Value)) : Environment :=
  ⟨Bindings.ofPairs ps⟩

def toList (env : Environment) : List (String × Value) :=
  env.bindings

def names (env : Environment) : List String :=
  Bindings.keys env.bindings

def size (env : Environment) : Nat :=
  env.bindings.length

/-- Environments are the same when they bind the same names to the same values, in any order. -/
def same (env env' : Environment) : Bool :=
  Value.same (.mapping env.bindings) (.mapping env'.bindings)

def toNode (env : Environment) : Json.Node :=
  Value.toNode (.mapping env.bindings)

/-- The environment that a JSON text denotes; it must be an object. -/
def ofJson? (text : String) : Option Environment :=
  (Value.entriesOfJson? text).map fun entries => ⟨entries⟩

/-! ## Laws -/

theorem get?_set (env : Environment) (name other : String) (value : Value) :
    (env.set name value).get? other = if name = other then some value else env.get? other :=
  Bindings.find?_insert name other value env.bindings

end Environment

end CueScript
