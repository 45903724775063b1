import CueScript.Shell.Tree

/-!
# CueScript.Shell.Source — the text that commands are read from

1. **Source**: the script, with texts that were put in front of the rest of it. A name that stands
   for such a text is in use until the character behind the text has been followed by another one.
2. **Reading**: the state of the reader, with the token that was read last.
3. **Characters**: the next one, with or without joined lines, and giving it back.
-/

namespace CueScript.Shell

/-! ## Source -/

/-- A text that is being read. -/
structure Layer where
  rest : Text
  /-- Characters that were read and given back, the next one first; nothing stands for the end. -/
  returned : List (Option Char)
  /-- Names whose texts have ended and that are in use for one more character. -/
  spent : List Text
  /-- The name that the text stands for. -/
  name : Option Text
  /-- Whether the text ends in a blank, so that the word behind it may be such a name too. -/
  endsBlank : Bool

/-- A layer that only holds a text. -/
def Layer.ofText (s : Text) : Layer :=
  ⟨s, [], [], none, false⟩

structure Source where
  layer : Layer
  /-- The texts that go on when the first one has ended. -/
  below : List Layer
  line : Nat
  /-- The names whose texts are being read. -/
  inUse : List Text

/-- A source that starts with a text on its first line. -/
def Source.ofText (s : Text) : Source :=
  ⟨.ofText s, [], 1, []⟩

/-- Takes the next character. The flag tells whether the text of a name has ended in a blank. -/
def Source.next (s : Source) : Option Char × Bool × Source :=
  go s.layer s.inUse false s.below
where
  /-- Reads from a layer, and from those below it when it has ended. -/
  go (top : Layer) (inUse : List Text) (blank : Bool) (below : List Layer) :
      Option Char × Bool × Source :=
    match top.returned with
    | c :: cs => (c, blank, { s with layer := { top with returned := cs }, below, inUse })
    | [] =>
      let inUse := if top.spent.isEmpty then inUse else inUse.filter (· ∉ top.spent)
      match top.rest with
      | c :: cs =>
        (some c, blank, { s with layer := { top with rest := cs, spent := [] }, below, inUse })
      | [] =>
        match below with
        | [] => (none, blank, { s with layer := { top with spent := [] }, below := [], inUse })
        | next :: deeper =>
          go { next with spent := top.name.toList ++ next.spent } inUse
            (blank || (top.name.isSome && top.endsBlank)) deeper

/-- Puts a text in front of what is left. -/
def Source.push (s : Source) (text : Text) (name : Option Text) : Source :=
  let blank := match text.getLast? with
    | some c => c == ' ' || c == '\t'
    | none => false
  { s with
    layer := ⟨text, [], [], name, blank⟩
    below := s.layer :: s.below
    inUse := name.toList ++ s.inUse }

/-! ## Reading -/

/-- Why a source spells no command, and on which line that was found. -/
structure SyntaxFault where
  line : Nat
  message : String
deriving Repr, DecidableEq

inductive Token where
  | endOfFile
  | newline
  | semicolon
  | ampersand
  | andIf
  | orIf
  | bar
  | opening
  | closing
  | armEnd
  | redirection
  | word
  | reserved (w : String)
deriving Repr, DecidableEq

def Token.name : Token → String
  | endOfFile => "end of file"
  | newline => "newline"
  | semicolon => "\";\""
  | ampersand => "\"&\""
  | andIf => "\"&&\""
  | orIf => "\"||\""
  | bar => "\"|\""
  | opening => "\"(\""
  | closing => "\")\""
  | armEnd => "\";;\""
  | redirection => "redirection"
  | word => "word"
  | reserved w => "\"" ++ w ++ "\""

/-- Whether a list of commands ends in front of a token. -/
def Token.endsList : Token → Bool
  | endOfFile | closing | armEnd => true
  | reserved w => w ∈ ["do", "done", "elif", "else", "esac", "fi", "then", "\x7d"]
  | _ => false

/-- What is looked for in front of and in the next token. -/
structure Checks where
  /-- Line ends are passed. -/
  newlines : Bool
  /-- Reserved words are told from other ones. -/
  reserved : Bool
  /-- Names that stand for other texts are replaced by them. -/
  aliases : Bool
  /-- The word is the end mark of a here-document, in which nothing is expanded. -/
  mark : Bool
deriving Repr, DecidableEq

namespace Checks

def none : Checks := ⟨false, false, false, false⟩

/-- What is looked for where a command may start. -/
def command : Checks := ⟨false, true, true, false⟩

/-- What is looked for where a command may start on a later line. -/
def laterCommand : Checks := ⟨true, true, true, false⟩

/-- What either of two looks for. -/
def or (a b : Checks) : Checks :=
  ⟨a.newlines || b.newlines, a.reserved || b.reserved, a.aliases || b.aliases, a.mark || b.mark⟩

end Checks

/-- A here-document whose text has not been read yet. -/
structure HereMark where
  number : Nat
  mark : Text
  stripTabs : Bool
  /-- Whether its text is expanded. -/
  expands : Bool

structure Reading where
  source : Source
  aliases : List (Text × Text)
  checks : Checks
  /-- The token that was read last. -/
  token : Token
  /-- Whether that token is still to be used. -/
  isReturned : Bool
  /-- The word that was read last, and whether a part of it was quoted. -/
  word : Word
  quoted : Bool
  /-- The redirection that was read last, still without its target. -/
  stream : Nat
  kind : RedirectKind
  stripTabs : Bool
  /-- Here-documents that start behind the next line end. -/
  waiting : List HereMark
  /-- The texts of the here-documents that were read. -/
  bodies : List (Nat × Word)
  /-- The texts of the here-documents as far as they are known beforehand. -/
  known : List (Nat × Word)
  /-- The number of here-documents that were met. -/
  count : Nat
  /-- In how many texts of here-documents the reader is, and the greatest number of them that lie in one
  another. -/
  depth : Nat
  deepest : Nat

abbrev Reader := EStateM SyntaxFault Reading

/-- More steps than any source takes. -/
def readingBound : Nat := 1000000000000

def faultHere {α : Type} (message : String) : Reader α := fun r =>
  .error ⟨r.source.line, message⟩ r

/-- Repeats a step until it gives a result. The bound is on the number of steps. -/
@[specialize]
def repeatReading {σ α : Type} (step : σ → Reader (σ ⊕ α)) : Nat → σ → Reader α
  | 0, _ => faultHere "too long"
  | n + 1, s => do
    match ← step s with
    | .inl s => repeatReading step n s
    | .inr a => return a

/-! ## Characters -/

/-- Takes the next character; nothing stands for the end of the source. -/
def nextChar : Reader (Option Char) := fun r =>
  let (c, blank, source) := r.source.next
  .ok c { r with source, checks := { r.checks with aliases := r.checks.aliases || blank } }

/-- Gives a character back, to be read again. -/
def giveBack (c : Option Char) : Reader Unit :=
  modify fun r => { r with source := { r.source with
    layer := { r.source.layer with returned := c :: r.source.layer.returned } } }

def countLine : Reader Unit :=
  modify fun r => { r with source := { r.source with line := r.source.line + 1 } }

/-- Takes the next character behind all backslashes that join lines. -/
def nextJoined : Reader (Option Char) :=
  repeatReading (fun () => do
    let c ← nextChar
    if c ≠ some '\\' then return .inr c
    else
      let d ← nextChar
      if d = some '\n' then
        countLine
        return .inl ()
      else
        giveBack d
        return .inr c) readingBound ()

end CueScript.Shell
