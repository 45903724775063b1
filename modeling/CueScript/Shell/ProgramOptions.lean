import CueScript.Shell.Quoted

/-!
# CueScript.Shell.ProgramOptions — options in front of the arguments of programs

Programs know options by letters behind a dash and by long names behind two of them. A long name may
be cut short as long as it is clear which one is meant; its value stands behind an equals sign or is
the next argument.
-/

namespace CueScript.Shell

inductive ValueUse where
  | never
  | optional
  | always
deriving Repr, DecidableEq

/-- An option with its long name, and its letter or a sign that stands for it. -/
structure ProgramOption where
  name : String
  letter : Char
  value : ValueUse
deriving Repr, DecidableEq

abbrev GivenOption := Char × Option Text

/-- The options of a program and what it does with them. -/
structure OptionTable where
  options : List ProgramOption
  /-- Whether options may stand behind arguments. -/
  permutes : Bool
  /-- The options behind which reading stops. -/
  final : List Char

namespace OptionTable

def ofLetter? (t : OptionTable) (c : Char) : Option ProgramOption :=
  if c.isAlphanum then t.options.find? fun o => o.letter = c else none

/-- The options with names that start in a given way; only the one with this name if there is one. -/
def named (t : OptionTable) (name : Text) : List ProgramOption :=
  match t.options.find? fun o => o.name.toList = name with
  | some o => [o]
  | none => t.options.filter fun o => !o.name.isEmpty && name.isPrefixOf o.name.toList

/-- Reads the letters behind a dash; the last one may need the next argument as its value, and is given
apart then. -/
def readLetters (t : OptionTable) : Text → Except Text (List GivenOption × Option Char)
  | [] => .ok ([], none)
  | c :: cs =>
    match t.ofLetter? c with
    | none => .error ("invalid option -- '".toList ++ [c, '\''])
    | some o =>
      if o.value = .always then
        .ok (if cs.isEmpty then ([], some c) else ([(c, some cs)], none))
      else do
        let (options, last) ← t.readLetters cs
        return ((c, none) :: options, last)

/-- A long option in the report of a problem with it. -/
def longText (name : Text) : Text :=
  '\'' :: '-' :: '-' :: name ++ ['\'']

/-- Reads a long name with the value behind it. An option whose value is the next argument is given
apart. -/
def readLong (t : OptionTable) (s : Text) : Except Text (GivenOption ⊕ ProgramOption) :=
  let name := s.takeWhile (· != '=')
  let value := match s.drop name.length with
    | _ :: value => some value
    | [] => none
  match t.named name with
  | [] => .error ("unrecognized option ".toList ++ longText s)
  | [o] =>
    if o.value = .never ∧ value.isSome then
      .error ("option ".toList ++ longText o.name.toList ++ " doesn't allow an argument".toList)
    else if o.value = .always ∧ value.isNone then .ok (.inr o)
    else .ok (.inl (o.letter, value))
  | os =>
    .error ("option ".toList ++ longText s ++ " is ambiguous; possibilities:".toList
      ++ os.flatMap fun o => ' ' :: longText o.name.toList)

/-- Reads the options of a program, and gives them with the arguments that are left. The error is the
report of a problem. -/
def read (t : OptionTable) : List Text → Except Text (List GivenOption × List Text)
  | [] => .ok ([], [])
  | a :: rest =>
    match a with
    | ['-', '-'] => .ok ([], rest)
    | '-' :: '-' :: s => do
      match ← t.readLong s, rest with
      | .inl option, rest =>
        let (more, args) ← if option.1 ∈ t.final then pure ([], rest) else t.read rest
        return (option :: more, args)
      | .inr o, value :: rest =>
        let (more, args) ← if o.letter ∈ t.final then pure ([], rest) else t.read rest
        return ((o.letter, some value) :: more, args)
      | .inr o, [] =>
        .error ("option ".toList ++ longText o.name.toList ++ " requires an argument".toList)
    | '-' :: c :: cs => do
      let (options, last) ← t.readLetters (c :: cs)
      match last, rest with
      | none, rest =>
        let ends := options.any fun o => o.1 ∈ t.final
        let (more, args) ← if ends then pure ([], rest) else t.read rest
        return (options ++ more, args)
      | some letter, value :: rest =>
        let (more, args) ← if letter ∈ t.final then pure ([], rest) else t.read rest
        return (options ++ (letter, some value) :: more, args)
      | some letter, [] =>
        .error ("option requires an argument -- '".toList ++ [letter, '\''])
    | _ =>
      if t.permutes then do
        let (more, args) ← t.read rest
        return (more, a :: args)
      else .ok ([], a :: rest)

end OptionTable

def helpHint (name : Text) : Text :=
  "Try '".toList ++ name ++ " --help' for more information.".toList

end CueScript.Shell
