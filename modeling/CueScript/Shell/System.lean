import CueScript.Shell.Bytes
import CueScript.World

/-!
# CueScript.Shell.System — open files and pipes

1. **State**: the world, the files that processes have open, the pipes between them, and what was
   written to the two outputs. An open file has a position that all its users share.
2. **Opening** files and pipes.
3. **Reading and writing**. A pipe may have a bound on what it takes; its writer is then cut off, and
   a reader that comes to the cut has to wait.
-/

namespace CueScript.Shell

/-! ## State -/

/-- What an open file leads to. -/
inductive Channel where
  | device (d : Device)
  | stdout
  | stderr
  | pipe (id : Nat)
  | file (place : List String)
  | directory
deriving Repr, DecidableEq

structure OpenFile where
  channel : Channel
  position : Nat
  readable : Bool
  writable : Bool
  /-- Whether everything is written at the end. -/
  appends : Bool
deriving Repr, DecidableEq

/-- What was written to a pipe and not read yet. -/
structure Pipe where
  front : Text
  /-- What comes behind the front, last part first. -/
  back : List Text
  /-- How many characters may still be written, if that is bounded. -/
  room : Option Nat
  /-- Whether more was to be written than there was room for. -/
  isCut : Bool
deriving Repr, DecidableEq

/-- Everything that processes share. -/
structure System where
  world : World
  files : List (Nat × OpenFile)
  nextFile : Nat
  pipes : List (Nat × Pipe)
  nextPipe : Nat
  /-- What was written to the two outputs, last part first. -/
  out : List Text
  err : List Text
  nextProcess : Nat
  /-- Signals on their way to processes. -/
  sent : List (Nat × Nat)

namespace System

/-- A system in which nothing is open and nothing was written. -/
def ofWorld (w : World) : System :=
  ⟨w, [], 0, [], 0, [], [], 1000, []⟩

/-! ## Opening -/

def addFile (s : System) (f : OpenFile) : Nat × System :=
  (s.nextFile, { s with files := (s.nextFile, f) :: s.files, nextFile := s.nextFile + 1 })

/-- Makes a pipe that holds a text, and opens its two ends: first the one to read from. -/
def addPipe (s : System) (text : Text) (room : Option Nat) : Nat × Nat × System :=
  let channel := Channel.pipe s.nextPipe
  let s := { s with
    pipes := (s.nextPipe, ⟨text, [], room, false⟩) :: s.pipes
    nextPipe := s.nextPipe + 1 }
  let (reading, s) := s.addFile ⟨channel, 0, true, false, false⟩
  let (writing, s) := s.addFile ⟨channel, 0, false, true, false⟩
  (reading, writing, s)

/-- Forgets the open files and pipes from some numbers on. -/
def forget (s : System) (file pipe : Nat) : System :=
  { s with
    files := s.files.filter fun f => f.1 < file
    pipes := s.pipes.filter fun p => p.1 < pipe }

def file? (s : System) (id : Nat) : Option OpenFile :=
  s.files.lookup id

def setFile (s : System) (id : Nat) (f : OpenFile) : System :=
  { s with files := Bindings.insert id f s.files }

/-! ## Reading and writing -/

inductive Refusal where
  | refused (e : OsError)
  /-- The pipe with this number has no more room. -/
  | full (pipe : Nat)
  /-- What comes next in the pipe with this number has not been written yet. -/
  | starved (pipe : Nat)
deriving Repr, DecidableEq

/-- The zero bytes that are read at a time from a device that has them without end. -/
def someZeros : Text := repeated '\x00' 4096

/-- What can be read from an open file; nothing at its end. -/
def peek (s : System) (id : Nat) : Except Refusal Text × System :=
  match s.file? id with
  | none => (.error (.refused .badDescriptor), s)
  | some f =>
    if !f.readable then (.error (.refused .badDescriptor), s)
    else
      match f.channel with
      | .device .zero | .device .full => (.ok someZeros, s)
      | .device _ | .stdout | .stderr => (.ok [], s)
      | .directory => (.error (.refused .isDirectory), s)
      | .file place => (.ok (textOfBytes ((s.world.contentAt place).drop f.position)), s)
      | .pipe p =>
        match s.pipes.lookup p with
        | none => (.ok [], s)
        | some pipe =>
          let text := if pipe.back.isEmpty then pipe.front
            else pipe.front ++ pipe.back.reverse.flatten
          if text.isEmpty ∧ pipe.isCut then (.error (.starved p), s)
          else
            (.ok text, if pipe.back.isEmpty then s else
              { s with pipes := Bindings.insert p { pipe with front := text, back := [] } s.pipes })

/-- Takes characters off the front of what can be read. -/
def skip (s : System) (id count : Nat) : System :=
  match s.file? id with
  | none => s
  | some f =>
    match f.channel with
    | .file _ => s.setFile id { f with position := f.position + count }
    | .pipe p =>
      match s.pipes.lookup p with
      | some pipe =>
        { s with pipes := Bindings.insert p { pipe with front := pipe.front.drop count } s.pipes }
      | none => s
    | _ => s

/-- Bytes with other bytes written over them from a position on. -/
def overwritten (old : List UInt8) (position : Nat) (new : List UInt8) : List UInt8 :=
  old.take position ++ List.replicate (position - old.length) 0 ++ new
    ++ old.drop (position + new.length)

def writePipe (s : System) (id : Nat) (pipe : Pipe) (text : Text) : Except Refusal Unit × System :=
  let put (p : Pipe) : System := { s with pipes := Bindings.insert id p s.pipes }
  match pipe.room with
  | none => (.ok (), put { pipe with back := text :: pipe.back })
  | some room =>
    let length := text.length
    if length ≤ room then
      (.ok (), put { pipe with back := text :: pipe.back, room := some (room - length) })
    else
      (.error (.full id),
        put { pipe with back := text.take room :: pipe.back, room := some 0, isCut := true })

def write (s : System) (id : Nat) (text : Text) : Except Refusal Unit × System :=
  match s.file? id with
  | none => (.error (.refused .badDescriptor), s)
  | some f =>
    if !f.writable then (.error (.refused .badDescriptor), s)
    else
      match f.channel with
      | .device .full => (.error (.refused .noSpace), s)
      | .device _ => (.ok (), s)
      | .directory => (.error (.refused .badDescriptor), s)
      | .stdout => (.ok (), { s with out := text :: s.out })
      | .stderr => (.ok (), { s with err := text :: s.err })
      | .pipe p =>
        match s.pipes.lookup p with
        | some pipe => s.writePipe p pipe text
        | none => (.ok (), s)
      | .file place =>
        let old := s.world.contentAt place
        let position := if f.appends then old.length else f.position
        let s := { s with world := s.world.put place (.file (overwritten old position (bytesOf text))) }
        (.ok (), s.setFile id { f with position := position + text.length })

end System

end CueScript.Shell
