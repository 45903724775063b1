import CueScript.Bindings

/-!
# CueScript.Value.Basic — the values of scripts

1. **Type**: a value is a text, a truth value, a list, or a mapping with ordered entries.
2. **Equality**: `DecidableEq` tells the order of entries; `same` does not, at any level.
3. **Tests**: `isTruthy` and `typeName`.
4. **Invariants**: `DistinctKeys` and `depth` describe the values that documents denote.
-/

namespace CueScript

/-! ## Type -/

/-- A value bound to a variable or produced by an expression. -/
inductive Value where
  | text (s : String)
  | bool (b : Bool)
  | list (items : List Value)
  | mapping (entries : List (String × Value))
deriving Repr

namespace Value

/-- The text without characters, which stands for a missing value. -/
def empty : Value := .text ""

/-! ## Equality -/

mutual
/-- Decides equality of values, order of entries included. -/
def decEq : (v w : Value) → Decidable (v = w)
  | .text s, .text t => if h : s = t then .isTrue (h ▸ rfl) else .isFalse (by simp [h])
  | .bool a, .bool b => if h : a = b then .isTrue (h ▸ rfl) else .isFalse (by simp [h])
  | .list xs, .list ys =>
    match decEqItems xs ys with
    | .isTrue h => .isTrue (h ▸ rfl)
    | .isFalse h => .isFalse (by simp [h])
  | .mapping xs, .mapping ys =>
    match decEqEntries xs ys with
    | .isTrue h => .isTrue (h ▸ rfl)
    | .isFalse h => .isFalse (by simp [h])
  | .text _, .bool _ | .text _, .list _ | .text _, .mapping _ | .bool _, .text _
  | .bool _, .list _ | .bool _, .mapping _ | .list _, .text _ | .list _, .bool _
  | .list _, .mapping _ | .mapping _, .text _ | .mapping _, .bool _ | .mapping _, .list _ =>
    .isFalse (by simp)

def decEqItems : (xs ys : List Value) → Decidable (xs = ys)
  | [], [] => .isTrue rfl
  | x :: xs, y :: ys =>
    match decEq x y, decEqItems xs ys with
    | .isTrue h, .isTrue k => .isTrue (by rw [h, k])
    | .isFalse h, _ => .isFalse (by simp [h])
    | _, .isFalse h => .isFalse (by simp [h])
  | [], _ :: _ | _ :: _, [] => .isFalse (by simp)

def decEqEntries : (xs ys : List (String × Value)) → Decidable (xs = ys)
  | [], [] => .isTrue rfl
  | (k, x) :: xs, (l, y) :: ys =>
    if hk : k = l then
      match decEq x y, decEqEntries xs ys with
      | .isTrue h, .isTrue j => .isTrue (by rw [hk, h, j])
      | .isFalse h, _ => .isFalse (by simp [h])
      | _, .isFalse h => .isFalse (by simp [h])
    else .isFalse (by simp [hk])
  | [], _ :: _ | _ :: _, [] => .isFalse (by simp)
end

instance : DecidableEq Value := decEq

mutual
/-- Equality of values as scripts see it: lists agree item by item, mappings agree key by key,
whatever the order of their entries. -/
def same : Value → Value → Bool
  | .text s, .text t => s == t
  | .bool a, .bool b => a == b
  | .list xs, .list ys => sameItems xs ys
  | .mapping xs, .mapping ys => xs.length == ys.length && sameEntries xs ys
  | _, _ => false

def sameItems : List Value → List Value → Bool
  | [], [] => true
  | x :: xs, y :: ys => same x y && sameItems xs ys
  | _, _ => false

/-- Every entry of the first list has a partner under its key in the second one. -/
def sameEntries : List (String × Value) → List (String × Value) → Bool
  | [], _ => true
  | (k, x) :: xs, ys =>
    (match Bindings.find? k ys with
      | some y => same x y
      | none => false) && sameEntries xs ys
end

/-! ## Tests -/

/-- Empty texts and structures are false, and so is `false`. -/
def isTruthy : Value → Bool
  | .text s => s ≠ ""
  | .bool b => b
  | .list items => !items.isEmpty
  | .mapping entries => !entries.isEmpty

/-- The word for the type of a value in reports. -/
def typeName : Value → String
  | .text _ => "text"
  | .bool _ => "bool"
  | .list _ => "list"
  | .mapping _ => "mapping"

/-! ## Invariants -/

mutual
/-- No mapping inside the value has a key twice. -/
def DistinctKeys : Value → Prop
  | .text _ | .bool _ => True
  | .list items => DistinctKeysItems items
  | .mapping entries => (Bindings.keys entries).Nodup ∧ DistinctKeysEntries entries

def DistinctKeysItems : List Value → Prop
  | [] => True
  | x :: xs => DistinctKeys x ∧ DistinctKeysItems xs

def DistinctKeysEntries : List (String × Value) → Prop
  | [] => True
  | (_, x) :: xs => DistinctKeys x ∧ DistinctKeysEntries xs
end

mutual
/-- The greatest number of lists and mappings that lie inside one another. -/
def depth : Value → Nat
  | .text _ | .bool _ => 0
  | .list items => depthItems items + 1
  | .mapping entries => depthEntries entries + 1

def depthItems : List Value → Nat
  | [] => 0
  | x :: xs => max (depth x) (depthItems xs)

def depthEntries : List (String × Value) → Nat
  | [] => 0
  | (_, x) :: xs => max (depth x) (depthEntries xs)
end

end Value

end CueScript
