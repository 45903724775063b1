import CueScript.Shell.Machine

/-!
# CueScript.Shell.Arguments — options in front of arguments

Options are letters behind a dash, several of them behind one dash if they take no value. A double
dash ends them.
-/

namespace CueScript.Shell

/-- Whether an option that is known takes a value: in the text of the known letters a colon follows it
then. -/
def takesValue? (known : Text) (c : Char) : Option Bool :=
  match known with
  | [] => none
  | k :: ':' :: rest => if k = c then some true else takesValue? rest c
  | k :: rest => if k = c then some false else takesValue? rest c

/-- Reports an option that is not known. -/
def failOption {α : Type} (c : Char) : Exec α :=
  fail ("Illegal option -".toList ++ [c])

/-- Reads the letters behind a dash. The last one may need the next argument as its value; it is given
apart then. -/
def readLetters (known : Text) : Text → Exec (List (Char × Text) × Option Char)
  | [] => return ([], none)
  | c :: cs =>
    match takesValue? known c with
    | none => failOption c
    | some true => return if cs.isEmpty then ([], some c) else ([(c, cs)], none)
    | some false => do
      let (options, last) ← readLetters known cs
      return ((c, []) :: options, last)

/-- Reads the options with their values, and gives them with the arguments that follow. -/
def readOptions (known : Text) : List Text → Exec (List (Char × Text) × List Text)
  | [] => return ([], [])
  | a :: rest =>
    match a with
    | ['-', '-'] => return ([], rest)
    | '-' :: c :: cs => do
      let (options, last) ← readLetters known (c :: cs)
      match last, rest with
      | none, rest =>
        let (more, args) ← readOptions known rest
        return (options ++ more, args)
      | some letter, value :: rest =>
        let (more, args) ← readOptions known rest
        return (options ++ (letter, value) :: more, args)
      | some letter, [] => fail ("No arg for -".toList ++ letter :: " option".toList)
    | _ => return ([], a :: rest)

/-- Reads the first option only, which takes no value. -/
def firstOption (known : Text) : List Text → Exec (Option Char × List Text)
  | ['-', '-'] :: rest => return (none, rest)
  | ('-' :: c :: _) :: rest => if known.contains c then return (some c, rest) else failOption c
  | args => return (none, args)

/-- The arguments behind a double dash, if they start with one; options are not known. -/
def withoutOptions (args : List Text) : Exec (List Text) := do
  return (← firstOption [] args).2

end CueScript.Shell
