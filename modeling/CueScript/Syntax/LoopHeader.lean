import CueScript.Syntax.Cursor
import CueScript.Syntax.Name

/-!
# CueScript.Syntax.LoopHeader — the headers of loops

`for $x in EXPR` loops with one control variable, `for $k, $v in EXPR` with two. A header is read
with one cursor: keywords must be followed by a blank, the run before `in` must hold a blank, and
what follows `in` is the expression, without the blanks around it.
-/

namespace CueScript

/-- The variables that a loop binds on each turn. -/
inductive ControlVars where
  /-- One variable, bound to each item. -/
  | single (name : String)
  /-- Two variables, bound to the key and the value of each entry. -/
  | pair (key value : String)
deriving Repr, DecidableEq

/-- The names in the order in which they are written. -/
def ControlVars.names : ControlVars → List String
  | single name => [name]
  | pair key value => [key, value]

/-- A loop header taken apart. -/
structure LoopHeader where
  vars : ControlVars
  expression : String
deriving Repr, DecidableEq

namespace Syntax

/-- The pieces of a header as they are written: one or two tokens, and the expression. -/
structure HeaderPieces where
  first : List Char
  second : Option (List Char)
  expression : List Char
deriving Repr, DecidableEq

/-- Reads a second token when a comma is at the cursor; `spaced` tells whether a blank stands
before the cursor. -/
def secondToken? (spaced : Bool) (c : Cursor) : Option (Option (List Char) × Bool × Cursor) :=
  match c.rest with
  | ',' :: _ =>
    match ((c.advance 1).skipBlanks.2).readToken with
    | (some token, c) => some (some token, c.skipBlanks)
    | (none, _) => none
  | _ => some (none, spaced, c)

def headerPieces? (header : List Char) : Option HeaderPieces := do
  let c := (Cursor.start header).skipBlanks.2
  let (true, c) := c.eatKeyword ['f', 'o', 'r'] | none
  let (some first, c) := c.skipBlanks.2.readToken | none
  let (spaced, c) := c.skipBlanks
  let (second, spaced, c) ← secondToken? spaced c
  let (true, c) := (spaced && (c.eatKeyword ['i', 'n']).1, (c.eatKeyword ['i', 'n']).2) | none
  let expression := Text.trimEnd c.skipBlanks.2.rest
  if expression.isEmpty then none else some ⟨first, second, expression⟩

end Syntax

/-- Reads a loop header. A text that is none is reported whole. -/
def LoopHeader.parse (header : String) : Except SyntaxError LoopHeader := do
  let some pieces := Syntax.headerPieces? header.toList | .error (.forHeader header)
  let expression := String.ofList pieces.expression
  let first ← Syntax.parseName (String.ofList pieces.first)
  match pieces.second with
  | none => return ⟨.single first, expression⟩
  | some token => return ⟨.pair first (← Syntax.parseName (String.ofList token)), expression⟩

end CueScript
