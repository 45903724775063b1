import CueScript.Shell.Children

/-!
# CueScript.Shell.Names — what the names of commands stand for

1. **Commands of the shell** are known by their names.
2. **Programs** are looked up in the directories of the search path. Where they were found is
   remembered.
3. **Descriptions** say what a name stands for.
-/

namespace CueScript.Shell

/-! ## Commands of the shell -/

structure BuiltinKind where
  /-- Whether errors end the shell, and assignments stay behind it. -/
  isSpecial : Bool
  /-- Whether arguments may be assignments, which are not split into fields. -/
  declares : Bool
deriving Repr, DecidableEq

/-- The names of the commands that are not special. -/
def regularCommands : List String :=
  ["[", "alias", "bg", "cd", "chdir", "command", "echo", "false", "fg", "getopts", "hash", "jobs",
    "kill", "printf", "pwd", "read", "test", "true", "type", "ulimit", "umask", "unalias", "wait"]

def builtinKind? (name : Text) : Option BuiltinKind :=
  let name := String.ofList name
  if name ∈ specialCommands then some ⟨true, name ∈ ["export", "local", "readonly"]⟩
  else if name ∈ regularCommands then some ⟨false, false⟩
  else none

/-! ## Programs -/

/-- The directories that are searched when the usual ones are asked for. -/
def usualSearchPath : Text :=
  "/usr/local/sbin:/usr/local/bin:/usr/sbin:/usr/bin:/sbin:/bin".toList

def Process.searchPath (p : Process) : List Text :=
  match p.value? "PATH".toList with
  | some s => partsBetween ':' s
  | none => []

/-- The path of a name in a directory; the empty directory is the working directory. -/
def pathIn (directory name : Text) : Text :=
  if directory.isEmpty then name else directory ++ '/' :: name

def programAt (w : World) (path : Text) : Except OsError String :=
  match w.look (ofBytes path) with
  | .ok (.program name) => .ok name
  | .ok _ => .error .permissionDenied
  | .error e => .error e

/-- The number of the first directory that has a program of a given name. The error is that of the
last directory that has something else of this name. -/
def searchProgram (w : World) (name : Text) (i : Nat) (e : OsError) :
    List Text → Except OsError Nat
  | [] => .error e
  | directory :: rest =>
    match programAt w (pathIn directory name) with
    | .ok _ => .ok i
    | .error .noEntry | .error .notDirectory => searchProgram w name (i + 1) e rest
    | .error e => searchProgram w name (i + 1) e rest

inductive Named where
  | builtin (kind : BuiltinKind)
  | function (body : Command)
  /-- The program under a path. -/
  | program (path : Text)
  | missing (e : OsError)

def startFailure (e : OsError) : String :=
  if e = .noEntry ∨ e = .notDirectory then "not found" else e.phrase

/-- The program that a name stands for, which is remembered. -/
def findProgram (name : Text) : Exec Named := do
  let m ← get
  let directories := m.process.searchPath
  match m.process.hashed.lookup name with
  | some (i, false) => return .program (pathIn (directories[i]?.getD []) name)
  | old =>
    match searchProgram m.world name 0 .noEntry directories with
    | .ok i =>
      alter fun p => { p with hashed := Bindings.insert name (i, false) p.hashed }
      return .program (pathIn (directories[i]?.getD []) name)
    | .error e =>
      if old.isSome then
        alter fun p => { p with hashed := p.hashed.filter fun h => h.1 ≠ name }
      return .missing e

/-- What a name stands for. Functions count if `functions` is set; with `usual` programs are looked
up in the usual directories. -/
def findCommand (functions usual : Bool) (name : Text) : Exec Named := do
  let m ← get
  if name.contains '/' then return .program name
  else
    match if functions then m.process.functions.lookup name else none with
    | some body => return .function body
    | none =>
      match builtinKind? name with
      | some kind => return .builtin kind
      | none =>
        if usual then
          let directories := partsBetween ':' usualSearchPath
          match searchProgram m.world name 0 .noEntry directories with
          | .ok i => return .program (pathIn (directories[i]?.getD []) name)
          | .error e => return .missing e
        else findProgram name

/-- Looks up the program that the first process of a pipeline runs, so that it is remembered. -/
def prepareCommand : Command → Exec Unit
  | .simple _ _ (word :: _) _ =>
    match plainText? word with
    | some name => if isName name then do
        let _ ← findCommand true false name
      else pure ()
    | none => pure ()
  | _ => pure ()

/-! ## Descriptions -/

/-- A name that stands for another text, as the command that makes it so. -/
def aliasText (a : Text × Text) : Text :=
  a.1 ++ '=' :: singleQuoted a.2

/-- Says what a name stands for, at length or as the text that it is replaced by. -/
def describe (name : Text) (usual verbose : Bool) : Exec Nat := do
  let m ← get
  let say (long short : Text) : Exec Nat := do
    put ((if verbose then name ++ long else short) ++ ['\n'])
    return 0
  if String.ofList name ∈ reservedWords then say " is a shell keyword".toList name
  else
    match m.process.aliases.lookup name with
    | some value => say (" is an alias for ".toList ++ value) ("alias ".toList ++ aliasText (name, value))
    | none =>
      let tracked := !usual && (m.process.hashed.lookup name).isSome
      match ← findCommand true usual name with
      | .builtin kind =>
        say (" is a ".toList ++ (if kind.isSpecial then "special " else "").toList
          ++ "shell builtin".toList) name
      | .function _ => say " is a shell function".toList name
      | .program path =>
        if name.contains '/' ∧ (m.world.look (ofBytes name)).toOption.isNone then
          if verbose then put (name ++ ": not found\n".toList)
          return 127
        else
          say ((if tracked then " is a tracked alias for " else " is ").toList ++ path) path
      | .missing _ =>
        if verbose then put (name ++ ": not found\n".toList)
        return 127

end CueScript.Shell
