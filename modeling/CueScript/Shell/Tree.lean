import CueScript.Shell.Bytes

/-!
# CueScript.Shell.Tree — commands of the shell

1. **Words** are made of pieces: plain and escaped characters, quotes, parameters, command
   substitutions and arithmetic. Quotes stay in the word, since what they mean depends on where the
   word is used.
2. **Commands** are simple commands, compound commands and their combinations, with redirections.
   Commands that can fail by themselves know their line.
-/

namespace CueScript.Shell

inductive RedirectKind where
  | input
  /-- Writes a new file; an old one may be kept from it by an option. -/
  | output
  /-- Writes a new file in place of any old one. -/
  | overwrite
  | append
  | readWrite
  /-- The target names another stream, or closes this one. -/
  | duplicate
  /-- The target is the text to read. -/
  | here
deriving Repr, DecidableEq

mutual
inductive Piece where
  /-- Characters without quotes. -/
  | plain (s : Text)
  /-- Characters in quotes or behind a backslash. -/
  | escaped (s : Text)
  /-- A quote, which starts or ends a quoted part. -/
  | quote
  /-- The value of a parameter, or what its use makes of it. -/
  | parameter (name : Text) (use : ParameterUse)
  /-- The output of a command. -/
  | substitution (body : Command)
  /-- The value of an arithmetic expression. -/
  | arithmetic (body : List Piece)

/-- What is done with the value of a parameter. -/
inductive ParameterUse where
  | value
  | length
  /-- A word in place of a missing value; also of an empty one when `orEmpty` is set. -/
  | orElse (orEmpty : Bool) (word : List Piece)
  /-- As `orElse`, and the parameter takes the word as its value. -/
  | orAssign (orEmpty : Bool) (word : List Piece)
  /-- A message and the end of the shell when the value is missing. -/
  | orFail (orEmpty : Bool) (word : List Piece)
  /-- A word in place of a value that is there. -/
  | andThen (orEmpty : Bool) (word : List Piece)
  /-- The value without the shortest or longest part at its start or end that fits a pattern. -/
  | trim (atEnd longest : Bool) (pattern : List Piece)
  /-- A use that the shell does not know. -/
  | bad

/-- A redirection of the stream with a given number. -/
inductive Redirect where
  | mk (stream : Nat) (kind : RedirectKind) (target : List Piece)

inductive Command where
  /-- Nothing. -/
  | empty
  /-- Assignments and a command name with arguments. -/
  | simple (line : Nat) (assignments words : List (List Piece)) (redirects : List Redirect)
  | subshell (line : Nat) (body : Command) (redirects : List Redirect)
  | redirected (line : Nat) (body : Command) (redirects : List Redirect)
  /-- Commands that run side by side, each reading what the one before it writes. -/
  | pipeline (commands : List Command) (background : Bool)
  /-- Runs the body in a process that is not waited for. -/
  | background (line : Nat) (body : Command) (redirects : List Redirect)
  | negation (body : Command)
  | both (first second : Command)
  | either (first second : Command)
  | sequence (commands : List Command)
  | conditional (test body : Command) (alternative : Option Command)
  /-- Runs the body while the test succeeds, or until it does. -/
  | loop (untilTrue : Bool) (test body : Command)
  /-- Runs the body for each field of the words. -/
  | forEach (line : Nat) (name : Text) (words : List (List Piece)) (body : Command)
  /-- Runs the body behind the first pattern that fits. -/
  | choice (line : Nat) (subject : List Piece) (arms : List (List (List Piece) × Command))
  | define (line : Nat) (name : Text) (body : Command)
end

instance : Inhabited Command := ⟨.empty⟩

/-- A word as it is written. -/
abbrev Word := List Piece

/-- The word `"$@"`: all arguments, each a field of its own. -/
def allArguments : Word :=
  [.quote, .parameter ['@'] .value, .quote]

/-- The characters of a word that has no expansions, without its quotes. -/
def literalText (w : Word) : Text :=
  w.flatMap fun
    | .plain s | .escaped s => s
    | _ => []

/-- The text of a word without quotes and expansions. -/
def plainText? (w : Word) : Option Text :=
  match w with
  | [] => some []
  | [.plain s] => some s
  | _ => none

/-- Whether a word assigns to a variable: a name and an equals sign without quotes. -/
def isAssignment (w : Word) : Bool :=
  match w with
  | .plain s :: _ =>
    match splitName s with
    | (_ :: _, '=' :: _) => true
    | _ => false
  | _ => false

/-! ## Reserved words -/

/-- Words that mean something only where a command may start. -/
def reservedWords : List String :=
  ["!", "case", "do", "done", "elif", "else", "esac", "fi", "for", "if", "in", "then", "until",
    "while", "\x7b", "\x7d"]

/-- The commands of the shell that no function can be named after. -/
def specialCommands : List String :=
  [".", ":", "break", "continue", "eval", "exec", "exit", "export", "local", "readonly", "return",
    "set", "shift", "times", "trap", "unset"]

end CueScript.Shell
