import CueScript.Shell.Machine

/-!
# CueScript.Shell.Variables — giving variables values

1. **Storing**: a variable that is constant is left alone. The search path and the place of the option
   reader have effects of their own.
2. **Locality**: functions and commands hide variables and put them back at their end.
3. **Writing**: the commands that would set variables as they are.
-/

namespace CueScript.Shell

/-! ## Storing -/

/-- What becomes of a variable besides its value. -/
structure Marking where
  exported : Bool
  constant : Bool
  fixed : Bool
deriving Repr, DecidableEq

def Marking.none : Marking := ⟨false, false, false⟩

/-- What changes together with a variable. -/
def react (name : Text) (value : Option Text) : Exec Unit := do
  if name = "PATH".toList then alter fun p => { p with hashed := [] }
  else if name = "OPTIND".toList then
    let n ← argumentNumber (value.getD [])
    alter fun p => { p with optionIndex := max 1 n, optionOffset := none }

/-- Gives a variable a value, or takes its value away. -/
def store (name : Text) (value : Option Text) (marking : Marking) (reacts : Bool) : Exec Unit := do
  let p ← process
  let exported := marking.exported || p.has .allexport
  let vanishes := value.isNone && !exported && !marking.constant && !marking.fixed
  match p.vars.lookup name with
  | some old =>
    if old.constant then fail (name ++ ": is read only".toList)
    if reacts then react name value
    if vanishes ∧ !old.fixed then
      alter fun p => { p with vars := p.vars.filter fun v => v.1 ≠ name }
    else
      let new : Variable := ⟨value, exported || old.exported, marking.constant,
        marking.fixed || old.fixed⟩
      alter fun p => { p with vars := Bindings.insert name new p.vars }
  | none =>
    if !vanishes then
      let new : Variable := ⟨value, exported, marking.constant, marking.fixed⟩
      alter fun p => { p with vars := p.vars ++ [(name, new)] }

/-- Gives a variable a value, or takes it away. Its name may be followed by an equals sign. -/
def storeNamed (name : Text) (value : Option Text) (marking : Marking) : Exec Unit := do
  let name := name.takeWhile (· != '=')
  if !isName name then fail (name ++ ": bad variable name".toList)
  store name value marking true

def assign (name value : Text) : Exec Unit :=
  storeNamed name (some value) .none

/-- Cuts a name off an argument that assigns to it. -/
def splitAssignment (s : Text) : Text × Option Text :=
  match s.dropWhile (· != '=') with
  | '=' :: value => (s.takeWhile (· != '='), some value)
  | _ => (s, none)

/-! ## Locality -/

/-- Adds to what the innermost function or command hides. -/
def hide (h : Hidden) : Exec Unit :=
  alter fun p =>
    match p.hidden with
    | frame :: frames => { p with hidden := (h :: frame) :: frames }
    | [] => p

/-- Makes a variable local, with a value if the argument has one. A dash stands for the options. -/
def makeLocal (argument : Text) (exported : Bool) : Exec Unit := do
  let p ← process
  if argument = ['-'] then hide (.settings p.settings)
  else
    let (name, value) := splitAssignment argument
    let marking : Marking := { Marking.none with exported }
    match p.vars.lookup name with
    | none =>
      if value.isSome then store name value { marking with fixed := true } true
      else storeNamed name none { marking with fixed := true }
      hide (.absent name)
    | some old =>
      hide (.value name old)
      alter fun p => { p with vars := Bindings.insert name { old with fixed := true } p.vars }
      if value.isSome then store name value marking true

def restore (h : Hidden) : Exec Unit := do
  match h with
  | .settings old => alter fun p => { p with settings := old }
  | .absent name =>
    alter fun p =>
      match p.vars.lookup name with
      | some v =>
        { p with vars := Bindings.insert name { v with fixed := false, constant := false } p.vars }
      | none => p
    store name none .none true
  | .value name old =>
    react name old.value
    alter fun p => { p with vars := Bindings.insert name old p.vars }

/-- Puts back what the innermost functions and commands hide, until so many are left. -/
def restoreTo (depth : Nat) : Exec Unit := do
  let frames := (← process).hidden
  (frames.take (frames.length - depth)).forM fun frame => do
    alter fun p => { p with hidden := p.hidden.drop 1 }
    frame.forM restore

/-! ## Writing -/

/-- A text in single quotes; single quotes in it are put in double ones. The bound is on the length
of the text. -/
def quotedParts : Nat → Text → Text
  | 0, _ => []
  | n + 1, s =>
    let part := s.takeWhile (· != '\'')
    let rest := s.dropWhile (· != '\'')
    let quotes := rest.takeWhile (· == '\'')
    let rest := rest.dropWhile (· == '\'')
    '\'' :: part ++ ['\''] ++
      (if quotes.isEmpty then []
      else '"' :: quotes ++ ['"'] ++ if rest.isEmpty then [] else quotedParts n rest)

def singleQuoted (s : Text) : Text :=
  quotedParts (s.length + 1) s

/-- Lines for the variables that are chosen, in the order of their names. -/
def Process.listing (p : Process) (command : Text) (chosen : Variable → Bool) : Text :=
  let vars := (p.vars.filter fun v => chosen v.2).mergeSort fun a b =>
    String.ofList a.1 ≤ String.ofList b.1
  vars.flatMap fun v =>
    (if command.isEmpty then [] else command ++ [' ']) ++ v.1
      ++ (match v.2.value with
        | some value => '=' :: singleQuoted value
        | none => []) ++ ['\n']

end CueScript.Shell
