import CueScript.Shell.Arguments
import CueScript.Shell.Fields
import CueScript.Shell.Variables

/-!
# CueScript.Shell.Input — reading lines into variables

A line ends at a line end without a backslash in front of it. Backslashes protect the characters behind
them from being separators; they can be switched off.
-/

namespace CueScript.Shell

/-- A line while it is read: the open region and the spans in front of it, both last part first. -/
structure LineRead where
  region : List Mark
  spans : List Span
  afterBackslash : Bool
deriving Repr, DecidableEq

namespace LineRead

def start : LineRead := ⟨[], [], false⟩

def close (l : LineRead) : LineRead :=
  ⟨[], .region false l.region.reverse :: l.spans, false⟩

def all (l : LineRead) : List Span :=
  l.close.spans.reverse

/-- Adds a character; nothing when it ends the line. Zero bytes do not count. -/
def add (raw : Bool) (l : LineRead) (c : Char) : Option LineRead :=
  if c = '\x00' then some l
  else if l.afterBackslash then
    let closed := l.close
    some (if c = '\n' then closed
      else { closed with spans := .fixed [.char c true] :: closed.spans })
  else if !raw ∧ c = '\\' then some { l with afterBackslash := true }
  else if c = '\n' then none
  else some { l with region := .char c false :: l.region }

/-- Adds characters up to the end of the line. Gives how many were used and whether the end was among
them. -/
def addAll (raw : Bool) (l : LineRead) (used : Nat) : Text → LineRead × Nat × Bool
  | [] => (l, used, false)
  | c :: s =>
    match l.add raw c with
    | some l => addAll raw l (used + 1) s
    | none => (l, used + 1, true)

end LineRead

/-- Reads a line off the input and tells whether it has an end. The bound is on the number of pieces
that the input comes in. -/
def readLine (raw : Bool) : Nat → LineRead → Exec (LineRead × Bool)
  | 0, l => return (l, false)
  | n + 1, l => do
    match ← peekStream 0 with
    | .error _ | .ok [] => return (l, false)
    | .ok text =>
      let (l, used, ended) := l.addAll raw 0 text
      skipStream 0 used
      if ended then return (l, true) else readLine raw n l

/-- Gives variables the fields of a line; those that are left get nothing. -/
def assignFields : List Text → List Text → Exec Unit
  | [], _ => return
  | name :: names, fields => do
    assign name (fields.headD [])
    assignFields names (fields.drop 1)

/-- Reads a line into variables; the last one takes all that is left. Fails at the end of the input. -/
def runRead (args : List Text) : Exec Nat := do
  let (options, names) ← readOptions "p:r".toList args
  if names.isEmpty then fail "arg count".toList
  let raw := (options.map Prod.fst).contains 'r'
  let (line, ended) ← readLine raw 10000 .start
  let fields := cutFields (← process).separators (some names.length) line.all
  assignFields names (fields.map marksText)
  return if ended then 0 else 1

end CueScript.Shell
