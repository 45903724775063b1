import CueScript.Shell.Machine

/-!
# CueScript.Shell.Redirection — opening files and pointing streams to them

1. **Opening** a path, which may name a stream of the process.
2. **Redirections** with their targets. What cannot be opened is reported and ends the command.
3. **Scopes**: streams are pointed back when a command has ended, and what was opened is forgotten.
-/

namespace CueScript.Shell

/-! ## Opening -/

namespace Access

/-- Whether a file that is not there is made. -/
def creates (a : Access) : Bool :=
  a ≠ read

/-- An open file with this access. -/
def file (a : Access) (channel : Channel) : OpenFile :=
  ⟨channel, 0, a = read || a = readWrite, a ≠ read, a = append⟩

end Access

/-- The stream that a path stands for. -/
def streamNamed? (path : Text) : Option Nat :=
  let numbered (start : String) : Option Nat :=
    (start.toList.isPrefixOf? path).bind fun rest => if rest.length ≤ 4 then natOf? rest else none
  ([("/dev/stdin", 0), ("/dev/stdout", 1), ("/dev/stderr", 2)].lookup (String.ofList path)).or
    ((numbered "/dev/fd/").or (numbered "/proc/self/fd/"))

/-- What a path leads to for a process, and the place if there is one. -/
def Machine.lookAt (m : Machine) (path : Text) : Except OsError (Option (List String) × Entry) :=
  match streamNamed? path with
  | some n =>
    match (m.process.stream? n).bind m.system.file? with
    | none => .error .noEntry
    | some f =>
      match f.channel with
      | .device d => .ok (none, .device d)
      | .directory => .ok (none, .directory)
      | .file place => .ok (some place, (m.world.entry? place).getD (.file []))
      | .stdout | .stderr | .pipe _ => .ok (none, .link "")
  | none => (m.world.find (ofBytes path)).map fun (place, e) => (some place, e)

def addFile (f : OpenFile) : Exec Nat := do
  let m ← get
  let (id, system) := m.system.addFile f
  set { m with system }
  return id

def openPlace (access : Access) (place : List String) : Option Entry → Exec (Except OsError Nat)
  | none =>
    if !access.creates then return .error .noEntry
    else do
      modify fun m => { m with system := { m.system with
        world := m.system.world.put place (.file []) } }
      return .ok (← addFile (access.file (.file place)))
  | some .directory =>
    if access.creates then return .error .isDirectory
    else do return .ok (← addFile (access.file .directory))
  | some (.device .terminal) => return .error .noDevice
  | some (.device d) => do return .ok (← addFile (access.file (.device d)))
  | some _ =>
    if access = .writeNew then return .error .fileExists
    else do
      if access = .write then
        modify fun m => { m with system := { m.system with
          world := m.system.world.put place (.file []) } }
      return .ok (← addFile (access.file (.file place)))

/-- Opens a path and gives the number of the open file. -/
def openPath (access : Access) (path : Text) : Exec (Except OsError Nat) := do
  let m ← get
  match streamNamed? path with
  | some n =>
    match (m.process.stream? n).bind m.system.file? with
    | none => return .error .noEntry
    | some f =>
      match f.channel with
      | .file place => openPlace access place (m.world.entry? place)
      | channel => return .ok (← addFile (access.file channel))
  | none =>
    match if access.creates then m.world.locateNew (ofBytes path)
      else m.world.locate true (ofBytes path) with
    | .ok (place, e) => openPlace access place e
    | .error e => return .error e

/-! ## Redirections -/

def openFailure (creating : Bool) (e : OsError) : String :=
  if e = .noEntry ∨ e = .notDirectory then
    if creating then "Directory nonexistent" else "No such file"
  else e.phrase

/-- Opens a path, or reports why that is not possible. -/
def mustOpen (access : Access) (path : Text) : Exec Nat := do
  match ← openPath access path with
  | .ok id => return id
  | .error e =>
    let verb := if access.creates then "create " else "open "
    fail ("cannot ".toList ++ verb.toList ++ path ++ ": ".toList
      ++ (openFailure access.creates e).toList)

/-- Makes a stream lead to an open file. -/
def pointStream (n id : Nat) : Exec Unit :=
  alter fun p => { p with streams := Bindings.insert n id p.streams }

def closeStream (n : Nat) : Exec Unit :=
  alter fun p => { p with streams := p.streams.filter fun s => s.1 ≠ n }

/-- Makes a pipe that holds a text and gives its two ends, first the one to read from. -/
def addPipe (text : Text) (room : Option Nat) : Exec (Nat × Nat) := do
  let m ← get
  let (reading, writing, system) := m.system.addPipe text room
  set { m with system }
  return (reading, writing)

def redirect (expand : Word → Exec Text) (r : Redirection) : Exec Unit := do
  match r.target with
  | .path access path => pointStream r.stream (← mustOpen access path)
  | .stream n =>
    if n ≠ r.stream then
      match (← process).stream? n with
      | some id => pointStream r.stream id
      | none => fail (natText n ++ ": Bad file descriptor".toList)
  | .closed => closeStream r.stream
  | .text word =>
    let (reading, _) ← addPipe (← expand word) none
    pointStream r.stream reading

/-! ## Scopes -/

/-- Runs an action and forgets the files that were opened by it and are no longer in use. -/
def forgetting {α : Type} (action : Exec α) : Exec α := do
  let s := (← get).system
  andThenAlways action (modify fun m =>
    if m.tasks.isEmpty ∧ m.process.streams.all fun e => e.2 < s.nextFile then
      { m with system := m.system.forget s.nextFile s.nextPipe }
    else m)

/-- Where the streams of redirections lead beforehand. A stream that is closed already and is to be
closed does not count. -/
def Process.savedStreams (p : Process) (rs : List Redirection) : List (Nat × Option Nat) :=
  (rs.filter fun r =>
    match r.target with
    | .closed => (p.stream? r.stream).isSome
    | _ => true).map fun r => (r.stream, p.stream? r.stream)

def restoreStreams (saved : List (Nat × Option Nat)) : Exec Unit :=
  saved.forM fun
    | (n, some id) => pointStream n id
    | (n, none) => closeStream n

/-- Carries redirections out and tells whether that was possible. -/
def redirectAll (expand : Word → Exec Text) (rs : List Redirection) : Exec Bool := do
  try
    rs.forM (redirect expand)
    return true
  catch
    | .error => return false
    | stop => throw stop

/-- Runs an action with redirections, whose success it is told. They stay behind it if `keeps` is
set and the action does not stop early. -/
def withRedirections {α : Type} (expand : Word → Exec Text) (rs : List Redirection) (keeps : Bool)
    (action : Bool → Exec α) : Exec α := do
  let p ← process
  let saved := p.savedStreams rs
  let body : Exec α := do
    let done ← redirectAll expand rs
    alter fun p => { p with traceStream := ((saved.lookup 2).bind id).or (p.stream? 2) }
    action done
  if rs.isEmpty then body
  else
    forgetting do
      let a ← try body
        catch stop =>
          restoreStreams saved
          throw stop
      if !keeps then restoreStreams saved
      return a

end CueScript.Shell
