import CueScript.Shell.Arguments
import CueScript.Shell.Variables

/-!
# CueScript.Shell.Directory — the working directory

1. **Paths**: the shell knows its working directory by a path that keeps the names of links; `..` takes
   the last name of the path away.
2. **Changing** the directory, with a search path for names.
-/

namespace CueScript.Shell

/-! ## Paths -/

/-- The slashes that a path starts with, as far as they count, and the rest of it. Two of them are not
the same as one or three. -/
def cutRoot (path : Text) : Text × Text :=
  match path with
  | '/' :: '/' :: rest => if rest.head? = some '/' then (['/'], rest) else (['/', '/'], rest)
  | '/' :: rest => (['/'], rest)
  | rest => (['/'], rest)

/-- The names on the way to a directory, last one first, after one more step. -/
def stepTo (names : List Text) (name : Text) : List Text :=
  if name.isEmpty ∨ name = ['.'] then names
  else if name = ['.', '.'] then names.drop 1
  else name :: names

/-- The path of a directory that is given from a directory with a known path. -/
def pathFrom (directory target : Text) : Text :=
  let absolute := target.head? = some '/'
  let (root, start) := cutRoot (if absolute then target else directory)
  let names := if absolute ∨ start.isEmpty then [] else (partsBetween '/' start).reverse
  let steps := partsBetween '/' (if absolute then start else target)
  root ++ ((steps.foldl stepTo names).reverse.intersperse ['/']).flatten

/-! ## Changing -/

/-- Forgets where programs were found, since the working directory has changed. -/
def doubtHashed : Exec Unit :=
  alter fun p => { p with hashed := p.hashed.map fun h => (h.1, h.2.1, true) }

def storeExported (name value : Text) : Exec Unit :=
  storeNamed name (some value) { Marking.none with exported := true }

/-- Makes a place the working directory, under a path. -/
def enterDirectory (place : List String) (path : Text) : Exec Unit := do
  alter fun p => { p with place }
  storeExported "OLDPWD".toList ((← process).directory.getD [])
  alter fun p => { p with directory := some path }
  storeExported "PWD".toList path
  doubtHashed

/-- Changes to a directory and tells whether that was possible. With `physical` links are replaced by
what they stand for. -/
def changeDirectory (physical : Bool) (target : Text) : Exec Bool := do
  let m ← get
  let path := if physical then none else
    match m.process.directory with
    | some directory => some (pathFrom directory target)
    | none => if target.head? = some '/' then some (pathFrom [] target) else none
  match m.world.find (ofBytes (path.getD target)) with
  | .ok (place, .directory) =>
    enterDirectory place (path.getD (toBytes (World.placePath place)))
    return true
  | _ => return false

/-- Whether a target is not looked for in the search path. -/
def isDirect (target : Text) : Bool :=
  match target with
  | '/' :: _ | ['.'] | '.' :: '/' :: _ | ['.', '.'] | '.' :: '.' :: '/' :: _ => true
  | _ => false

/-- Whether links are to be replaced, by the options of the command: what counts is whether they
change an odd number of times. -/
def isPhysical (options : List (Char × Text)) : Bool :=
  (options.foldl (fun (last, physical) o =>
    if o.1 = last then (last, physical) else (o.1, !physical)) ('L', false)).2

/-- Changes to a directory, to the home directory without an argument, or back for a dash. -/
def runCd (args : List Text) : Exec Nat := do
  let (options, args) ← readOptions "LP".toList args
  let physical := isPhysical options
  let p ← process
  let back := args.head? = some ['-']
  let target := match args with
    | [] => (p.value? "HOME".toList).getD []
    | target :: _ => if back then (p.value? "OLDPWD".toList).getD [] else target
  let (path, found) ←
    if isDirect target then pure (target, false)
    else do
      let name := if target.isEmpty then ['.'] else target
      let directories := ((p.value? "CDPATH".toList).map (partsBetween ':')).getD []
      let world := (← get).world
      match directories.find? fun d =>
        (world.look (ofBytes (if d.isEmpty then name else d ++ '/' :: name))).toOption
          = some .directory with
      | some d => pure (if d.isEmpty then (name, false) else (d ++ '/' :: name, true))
      | none => pure (name, false)
  if !(← changeDirectory physical path) then fail ("can't cd to ".toList ++ target)
  if back ∨ found then put ((← process).directory.getD [] ++ ['\n'])
  return 0

def runPwd (args : List Text) : Exec Nat := do
  let (options, _) ← readOptions "LP".toList args
  let p ← process
  let path := toBytes (World.placePath p.place)
  put ((if isPhysical options then path else p.directory.getD path) ++ ['\n'])
  return 0

end CueScript.Shell
