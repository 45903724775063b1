import CueScript.Shell.Pattern

/-!
# CueScript.Shell.Fields — from expanded words to fields

1. **Spans**: an expanded word is a sequence of fixed marks and of regions, which separators may cut.
2. **Cutting**: separators cut the regions of a word. Blanks among them count once, however many
   there are, and not at all at the start and the end of a field; the end of an argument always
   cuts. The number of fields may be bounded: the last one then keeps its separators.
-/

namespace CueScript.Shell

/-! ## Spans -/

inductive Span where
  | fixed (marks : List Mark)
  /-- Marks that may be cut. With `byArgument` only the ends of arguments cut, and each of them ends
  a field. -/
  | region (byArgument : Bool) (marks : List Mark)
deriving Repr, DecidableEq

def spanMarks (ss : List Span) : List Mark :=
  ss.flatMap fun
    | .fixed ms | .region _ ms => ms

/-- The character that stands between arguments. -/
def argumentEnd : Char := '\x00'

/-! ## Cutting -/

/-- A word while it is cut: its open field, last mark first, and the fields in front of it, last one
first. -/
structure Cutting where
  field : List Mark
  fields : List (List Mark)
  /-- Whether blanks have closed the last field, so that another separator goes with them. -/
  afterBlank : Bool
  /-- Whether the last region was one of arguments. -/
  byArgument : Bool
  /-- How many fields may follow, if that is bounded. -/
  left : Option Nat
  /-- The length that is left of the last field when its trailing separators are dropped. -/
  kept : Option Nat
deriving Repr, DecidableEq

namespace Cutting

/-- Whether a separator is a blank. -/
def isBlank (c : Char) : Bool :=
  c == ' ' || c == '\t' || c == '\n' || c == argumentEnd

def add (s : Cutting) (m : Mark) : Cutting :=
  { s with field := m :: s.field, afterBlank := false }

/-- Takes a mark of the last field, which is not cut. -/
def addLast (s : Cutting) (m : Mark) (separates blank : Bool) : Cutting :=
  let t := { s with field := m :: s.field }
  if blank then { t with kept := s.kept.or (some s.field.length) }
  else { t with kept := if separates ∧ s.afterBlank then s.kept else none, afterBlank := false }

/-- Takes a separator that stands behind a field or in front of all of them. `counts` tells whether
blanks go together. -/
def separate (s : Cutting) (m : Mark) (blank counts : Bool) : Cutting :=
  let afterBlank := counts && blank
  if s.field.isEmpty ∧ afterBlank then { s with afterBlank := false }
  else
    match s.left with
    | some 1 =>
      { s with left := some 0, kept := some s.field.length, field := m :: s.field, afterBlank }
    | left =>
      { s with
        left := left.map (· - 1)
        fields := s.field.reverse :: s.fields
        field := []
        afterBlank }

/-- Takes a mark of a region. `after` tells whether the region follows one of arguments. -/
def takeMark (separators : Text) (after byArgument : Bool) (s : Cutting) (m : Mark) : Cutting :=
  match m with
  | .quote => s.add m
  | .char c _ =>
    let separates := c == argumentEnd || (!byArgument && separators.contains c)
    let blank := separates && isBlank c
    if s.left = some 0 then s.addLast m separates blank
    else if s.afterBlank then
      let s := { s with field := [] }
      if !separates then s.add m else { s with afterBlank := blank }
    else if separates then s.separate m blank (!after && !byArgument)
    else s.add m

def takeSpan (separators : Text) (s : Cutting) : Span → Cutting
  | .fixed ms => { s with field := ms.reverse ++ s.field }
  | .region byArgument ms =>
    ms.foldl (takeMark separators s.byArgument byArgument)
      { s with byArgument, afterBlank := false }

/-- The fields of a word that has been cut. An open field without marks is none, unless an argument
ends there. -/
def finish (s : Cutting) : List (List Mark) :=
  let field := s.field.reverse
  if s.byArgument then (field :: s.fields).reverse
  else
    let field := match s.kept with
      | some n => field.take n
      | none => field
    (if field.isEmpty then s.fields else field :: s.fields).reverse

end Cutting

def cutFields (separators : Text) (limit : Option Nat) (ss : List Span) : List (List Mark) :=
  (ss.foldl (Cutting.takeSpan separators) ⟨[], [], false, false, limit, none⟩).finish

end CueScript.Shell
