import CueScript.Bindings
import CueScript.Text.Utf8

/-!
# CueScript.World — directories, files and programs

1. **Errors**: why the system refuses something.
2. **Worlds**: directories, files, devices, programs and links under their paths, and the working
   directory.
3. **Places**: paths are looked up part by part, so that a missing or unsuitable part is told apart
   from a missing end. Links are followed on the way.
4. **Content**: reading and changing files.
5. **Worlds to start from**.
-/

namespace CueScript

/-! ## Errors -/

/-- Why the system refuses something. -/
inductive OsError where
  | notPermitted
  | noEntry
  | noProcess
  | noDevice
  | argumentsTooLong
  | execFormat
  | badDescriptor
  | permissionDenied
  | fileExists
  | notDirectory
  | isDirectory
  | noSpace
  | nameTooLong
  | tooManyLinks
deriving Repr, DecidableEq

namespace OsError

def number : OsError → Nat
  | notPermitted => 1
  | noEntry => 2
  | noProcess => 3
  | noDevice => 6
  | argumentsTooLong => 7
  | execFormat => 8
  | badDescriptor => 9
  | permissionDenied => 13
  | fileExists => 17
  | notDirectory => 20
  | isDirectory => 21
  | noSpace => 28
  | nameTooLong => 36
  | tooManyLinks => 40

def phrase : OsError → String
  | notPermitted => "Operation not permitted"
  | noEntry => "No such file or directory"
  | noProcess => "No such process"
  | noDevice => "No such device or address"
  | argumentsTooLong => "Argument list too long"
  | execFormat => "Exec format error"
  | badDescriptor => "Bad file descriptor"
  | permissionDenied => "Permission denied"
  | fileExists => "File exists"
  | notDirectory => "Not a directory"
  | isDirectory => "Is a directory"
  | noSpace => "No space left on device"
  | nameTooLong => "File name too long"
  | tooManyLinks => "Too many levels of symbolic links"

/-- The report for a reader, with the number. -/
def message (e : OsError) : String :=
  e.phrase ++ " (os error " ++ toString e.number ++ ")"

end OsError

/-! ## Worlds -/

inductive Device where
  /-- Swallows what is written and holds nothing to read. -/
  | null
  /-- As `null`, but zero bytes without end can be read. -/
  | zero
  /-- As `zero`, but nothing can be written. -/
  | full
  /-- The terminal of a process, which has none. -/
  | terminal
deriving Repr, DecidableEq

/-- What stands under a path. -/
inductive Entry where
  | directory
  | file (content : List UInt8)
  | device (d : Device)
  | program (name : String)
  /-- Stands for another path. -/
  | link (target : String)
deriving Repr, DecidableEq

/-- Directories, files and programs under their paths, given as lists of names from the root, and
the working directory. -/
structure World where
  entries : List (List String × Entry)
  cwd : List String
deriving Repr, DecidableEq

namespace World

/-! ## Places -/

/-- The names of a path between its slashes. -/
def splitPath (path : String) : List String :=
  path.splitOn "/"

def placePath (names : List String) : String :=
  "/" ++ String.intercalate "/" names

/-- What stands under a list of names. -/
def entry? (w : World) (names : List String) : Option Entry :=
  if names = [] then some .directory else Bindings.find? names w.entries

/-- Follows names from a directory, to what stands there or to a free place in a directory. A link
that comes last is followed on demand. The bound is on the number of steps. -/
def walk (w : World) (follow : Bool) :
    Nat → List String → List String → Except OsError (List String × Option Entry)
  | 0, _, _ => .error .tooManyLinks
  | _, place, [] => .ok (place, w.entry? place)
  | n + 1, place, name :: rest =>
    if w.entry? place ≠ some .directory then .error .notDirectory
    else if name = "" ∨ name = "." then w.walk follow n place rest
    else if name = ".." then w.walk follow n place.dropLast rest
    else if 255 < name.utf8ByteSize then .error .nameTooLong
    else
      let here := place ++ [name]
      match w.entry? here with
      | none => if rest.isEmpty then .ok (here, none) else .error .noEntry
      | some (.link target) =>
        if rest.isEmpty ∧ !follow then .ok (here, w.entry? here)
        else
          let start := if target.startsWith "/" then [] else place
          w.walk follow n start (splitPath target ++ rest)
      | some _ => w.walk follow n here rest

/-- More steps than any path without a circle of links takes. -/
def walkBound : Nat := 20000

/-- The place that a path leads to, and what stands there if it is not free. The empty path leads
nowhere. -/
def locate (w : World) (follow : Bool) (path : String) :
    Except OsError (List String × Option Entry) :=
  if path = "" then .error .noEntry
  else if 4095 < path.utf8ByteSize then .error .nameTooLong
  else w.walk follow walkBound (if path.startsWith "/" then [] else w.cwd) (splitPath path)

/-- What a path leads to, and where that stands. -/
def find (w : World) (path : String) : Except OsError (List String × Entry) := do
  match ← w.locate true path with
  | (names, some e) => .ok (names, e)
  | (_, none) => .error .noEntry

/-- What a path leads to. -/
def look (w : World) (path : String) : Except OsError Entry :=
  (w.find path).map Prod.snd

/-- The place that a file gets when it is created under a path. -/
def locateNew (w : World) (path : String) : Except OsError (List String × Option Entry) :=
  match w.locate true path with
  | .error .noEntry =>
    if path.endsWith "/" ∧ (w.locate true (path.dropEndWhile (· == '/')).copy).isOk
      ∧ !path.all (· == '/') then .error .isDirectory
    else .error .noEntry
  | r => r

/-- The names in a directory. -/
def list (w : World) (names : List String) : List String :=
  w.entries.filterMap fun e => if e.1.dropLast = names ∧ e.1 ≠ [] then e.1.getLast? else none

/-! ## Content -/

/-- The bytes of a program that tell it from a text. -/
def programBytes : List UInt8 :=
  [0x7f, 0x45, 0x4c, 0x46, 2, 1, 1, 0, 0, 0, 0, 0, 0, 0, 0, 0, 3, 0, 0x3e, 0, 0xff]

def contentAt (w : World) (names : List String) : List UInt8 :=
  match w.entry? names with
  | some (.file content) => content
  | some (.program _) => programBytes
  | _ => []

def read (w : World) (path : String) : Except OsError (List UInt8) := do
  match ← w.find path with
  | (_, .directory) => .error .isDirectory
  | (_, .device .terminal) => .error .noDevice
  | (names, _) => .ok (w.contentAt names)

/-- What reading a path gives, with the report of a failure. -/
def files (w : World) (path : String) : Except String (List UInt8) :=
  (w.read path).mapError OsError.message

def put (w : World) (names : List String) (e : Entry) : World :=
  { w with entries := Bindings.insert names e w.entries }

/-- Makes a path, given as names, a directory, and all that it lies in. -/
def addDirectory (w : World) (names : List String) : World :=
  ((List.range (names.length + 1)).map names.take).foldl (fun w ns =>
    if (w.entry? ns).isSome then w else w.put ns .directory) w

/-- Puts an entry under a path, given as names, and makes the directories that it lies in. -/
def add (w : World) (names : List String) (e : Entry) : World :=
  (w.addDirectory names.dropLast).put names e

/-! ## Worlds to start from -/

def programNames : List String :=
  ["cat", "echo", "env", "false", "printf", "sh", "test", "true", "["]

def usualDirectories : List String :=
  ["boot", "dev/pts", "dev/shm", "etc", "home", "media", "mnt", "opt", "proc/self/fd", "root",
    "run/lock", "srv", "sys", "tmp", "usr/bin", "usr/games", "usr/include", "usr/lib", "usr/lib64",
    "usr/libexec", "usr/local/bin", "usr/local/etc", "usr/local/games", "usr/local/include",
    "usr/local/lib", "usr/local/sbin", "usr/local/share/man", "usr/local/src", "usr/sbin",
    "usr/share", "usr/src", "var/backups", "var/cache/man", "var/lib", "var/local", "var/log",
    "var/mail", "var/opt", "var/spool", "var/tmp", "work"]

/-- The links that every world has, with what they stand for. -/
def usualLinks : List (String × String) :=
  [("bin", "usr/bin"), ("lib", "usr/lib"), ("lib64", "usr/lib64"), ("sbin", "usr/sbin"),
    ("usr/local/man", "share/man"), ("var/run", "/run"), ("var/lock", "/run/lock"),
    ("dev/fd", "/proc/self/fd")]

/-- The devices that every world has. Standard input is empty. -/
def usualDevices : List (String × Device) :=
  [("dev/null", .null), ("dev/zero", .zero), ("dev/full", .full), ("dev/tty", .terminal),
    ("dev/stdin", .null)]

/-- The users with their home directories. -/
def usualUsers : List (String × String) :=
  [("root", "/root"), ("daemon", "/usr/sbin"), ("bin", "/bin"), ("sys", "/dev"), ("sync", "/bin"),
    ("games", "/usr/games"), ("man", "/var/cache/man"), ("lp", "/var/spool/lpd"),
    ("mail", "/var/mail"), ("news", "/var/spool/news"), ("uucp", "/var/spool/uucp"),
    ("proxy", "/bin"), ("www-data", "/var/www"), ("backup", "/var/backups"), ("list", "/var/list"),
    ("irc", "/run/ircd"), ("_apt", "/nonexistent"), ("nobody", "/nonexistent")]

/-- A world with the usual directories, the programs above, and an empty working directory. -/
def base : World :=
  let w : World := ⟨[], ["work"]⟩
  let w := usualDirectories.foldl (fun w path => w.addDirectory (splitPath path)) w
  let w := programNames.foldl (fun w name => w.put ["usr", "bin", name] (.program name)) w
  let w := usualLinks.foldl (fun w l => w.put (splitPath l.1) (.link l.2)) w
  let w := usualDevices.foldl (fun w d => w.put (splitPath d.1) (.device d.2)) w
  let users := usualUsers.map fun u => u.1 ++ ":x:0:0:" ++ u.1 ++ ":" ++ u.2 ++ ":/bin/sh\n"
  w.put ["etc", "passwd"] (.file (Text.Utf8.encode (String.join users).toList))

/-- The base world with files in its working directory. -/
def ofFiles (files : List (String × List UInt8)) : World :=
  files.foldl (fun w f => w.add (w.cwd ++ (splitPath f.1).filter (· ≠ "")) (.file f.2)) base

end World

end CueScript
