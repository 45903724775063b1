import CueScript.Shell.Children
import CueScript.Shell.ProgramOptions

/-!
# CueScript.Shell.Cat — the program that copies files

1. **Reports** of programs start with their names. What cannot be written ends a program.
2. **Lines** may be numbered and marked, empty lines left out, and bytes that are not printable shown by
   others.
3. **Copying**: the files one behind the other, those that cannot be read left out.
-/

namespace CueScript.Shell

/-! ## Reports -/

/-- Reports a problem of a program that was started under a name. -/
def report (name text : Text) : Exec Unit :=
  writeAnyway 2 (name ++ ": ".toList ++ text ++ ['\n'])

/-- Reports a problem that ends a program. -/
def failProgram {α : Type} (status : Nat) (name text : Text) : Exec α := do
  report name text
  setStatus status
  throw .finish

/-- Reports what is wrong with the options of a program, which ends it. -/
def failUsage {α : Type} (status : Nat) (name text : Text) : Exec α :=
  failProgram status name (text ++ '\n' :: helpHint name)

/-- Writes the output of a program, or reports why that is not possible. -/
def writeOutput (status : Nat) (name text : Text) : Exec Unit := do
  match ← writeStream 1 text with
  | .ok () => pure ()
  | .error e => failProgram status name ("write error: ".toList ++ e.phrase.toList)

/-! ## Lines -/

structure LineStyle where
  numbers : Bool
  /-- Whether empty lines have no numbers. -/
  skipsEmpty : Bool
  /-- Whether ends of lines are marked. -/
  ends : Bool
  tabs : Bool
  nonprinting : Bool
  /-- Whether only the first of several empty lines is shown. -/
  squeezes : Bool
deriving Repr, DecidableEq

/-- How far lines have been copied. -/
structure LineCopy where
  /-- The number of line ends behind the last line that is not empty, up to two; nothing inside of a
  line. -/
  newlines : Option Nat
  number : Nat
  /-- A carriage return that has been held back. -/
  held : Bool
deriving Repr, DecidableEq

def lineNumber (n : Nat) : Text :=
  let digits := natText n
  repeated ' ' (6 - digits.length) ++ digits ++ ['\t']

/-- A byte as it is shown inside of a line. -/
def LineStyle.shown (style : LineStyle) (c : Char) : Text :=
  let plain (c : Char) : Text :=
    if c = '\x7f' then ['^', '?']
    else if c < ' ' then ['^', Char.ofNat (c.toNat + 64)] else [c]
  if c = '\t' then if style.tabs then ['^', 'I'] else [c]
  else if !style.nonprinting then [c]
  else if c.toNat < 128 then plain c
  else 'M' :: '-' :: plain (Char.ofNat (c.toNat - 128))

namespace LineCopy

def takeEnd (style : LineStyle) (l : LineCopy) : Text × LineCopy :=
  let count := match l.newlines with
    | none => 0
    | some n => min 2 (n + 1)
  if style.squeezes ∧ count = 2 then ([], { l with newlines := some 2 })
  else
    let numbered := 0 < count && style.numbers && !style.skipsEmpty
    let number := if numbered then l.number + 1 else l.number
    ((if numbered then lineNumber number else [])
      ++ (if style.ends then (if l.held then ['^', 'M'] else []) ++ ['$'] else []) ++ ['\n'],
      ⟨some count, number, l.held && !style.ends⟩)

/-- Takes a byte inside of a line. `next` is the one behind it. -/
def takeByte (style : LineStyle) (l : LineCopy) (c : Char) (next : Option Char) : Text × LineCopy :=
  let numbered := l.newlines.isSome && style.numbers
  let number := if numbered then l.number + 1 else l.number
  let start := (if l.held then ['\r'] else []) ++ (if numbered then lineNumber number else [])
  if style.ends ∧ !style.nonprinting ∧ c = '\r' ∧ (next.isNone ∨ next = some '\n') then
    (start, ⟨none, number, true⟩)
  else (start ++ style.shown c, ⟨none, number, false⟩)

def copy (style : LineStyle) (l : LineCopy) : Text → List Text → List Text × LineCopy
  | [], done => (done, l)
  | c :: rest, done =>
    let (s, l) := if c = '\n' then l.takeEnd style else l.takeByte style c rest.head?
    copy style l rest (s :: done)

end LineCopy

/-! ## Copying -/

def catOptions : OptionTable where
  options :=
    [⟨"number-nonblank", 'b', .never⟩, ⟨"number", 'n', .never⟩, ⟨"squeeze-blank", 's', .never⟩,
      ⟨"show-nonprinting", 'v', .never⟩, ⟨"show-ends", 'E', .never⟩, ⟨"show-tabs", 'T', .never⟩,
      ⟨"show-all", 'A', .never⟩, ⟨"", 'e', .never⟩, ⟨"", 't', .never⟩, ⟨"", 'u', .never⟩]
  permutes := true
  final := []

def styleOf (options : List GivenOption) : LineStyle :=
  let has (letters : Text) : Bool := options.any fun o => o.1 ∈ letters
  ⟨has ['b', 'n'], has ['b'], has ['E', 'A', 'e'], has ['T', 'A', 't'], has ['v', 'A', 'e', 't'],
    has ['s']⟩

/-- Copies what is left in an open file. -/
def copyFile (name : Text) (style : Option LineStyle) (l : LineCopy) (id : Nat) :
    Exec (Except OsError LineCopy) :=
  repeatTurns (fun l => do
    match ← onSystem fun s => s.peek id with
    | .error e => return .inr (.error e)
    | .ok [] => return .inr (.ok l)
    | .ok text =>
      modify fun m => { m with system := m.system.skip id text.length }
      match style with
      | none =>
        writeOutput 1 name text
        return .inl l
      | some style =>
        let (parts, l) := l.copy style text []
        writeOutput 1 name parts.reverse.flatten
        return .inl l) turnBound l

/-- Whether copying an open file to the output would never end: the output is written to the same file,
at a place that has not been read. -/
def feedsItself (s : System) (input : OpenFile) (output : Option OpenFile) : Bool :=
  match input.channel, output with
  | .file place, some o =>
    o.channel = .file place &&
      input.position < (if o.appends then (s.world.contentAt place).length else o.position)
  | _, _ => false

/-- Copies a file, or what is left in the input for a dash. Tells whether that was possible. -/
def copyNamed (name : Text) (style : Option LineStyle) (l : LineCopy) (path : Text) :
    Exec (LineCopy × Bool) := do
  let refuse (e : OsError) : Exec (LineCopy × Bool) := do
    report name (asWord path ++ ": ".toList ++ e.phrase.toList)
    return (l, false)
  let m ← get
  let opened ← if path ≠ ['-'] then openPath .read path else
    pure (match m.process.stream? 0 with
      | some id => .ok id
      | none => .error .badDescriptor)
  match opened with
  | .error e => refuse e
  | .ok id =>
    let s := (← get).system
    let output := (m.process.stream? 1).bind s.file?
    if (s.file? id).any fun f => feedsItself s f output then
      report name (asWord path ++ ": input file is output file".toList)
      return (l, false)
    else
      match ← copyFile name style l id with
      | .ok l => return (l, true)
      | .error e => refuse e

def runCat (name : Text) (args : List Text) : Exec Unit := do
  match catOptions.read args with
  | .error e => failUsage 1 name e
  | .ok (options, paths) =>
    let style := styleOf options
    let isPlain := style = ⟨false, false, false, false, false, false⟩
    let paths := if paths.isEmpty then [['-']] else paths
    if ((← process).stream? 1).isNone then
      failProgram 1 name "standard output: Bad file descriptor".toList
    let (l, fine) ← paths.foldlM (fun (l, fine) path => do
      let (l, copied) ← copyNamed name (if isPlain then none else some style) l path
      return (l, fine && copied)) (⟨some 0, 0, false⟩, true)
    if l.held then writeOutput 1 name ['\r']
    setStatus (if fine then 0 else 1)
    if paths.contains ['-'] && ((← process).stream? 0).isNone then
      failProgram 1 name "closing standard input: Bad file descriptor".toList

end CueScript.Shell
