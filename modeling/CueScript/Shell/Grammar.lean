import CueScript.Shell.Lexer

/-!
# CueScript.Shell.Grammar — from words to commands

1. **Tokens**: the next one, with names replaced by the texts that they stand for, and reserved words
   where they count.
2. **Here-documents** are read behind the line that they were started on.
3. **Commands** are read by readers for the commands inside of them; `nestedReaders` ties the knot
   by a bound on how deep commands nest.
4. **Scripts** are read one complete command at a time. A command with here-documents is read twice:
   first to find their texts, and then with them.
-/

namespace CueScript.Shell

/-! ## Tokens -/

/-- A fault for a token that does not belong where it stands. -/
def unexpected {α : Type} (expected : Option Token) : Reader α := do
  let found := (← get).token.name ++ " unexpected"
  match expected with
  | some t => faultHere (found ++ " (expecting " ++ t.name ++ ")")
  | none => faultHere found

/-- Lets the last token be used again. -/
def returnToken : Reader Unit :=
  modify fun r => { r with isReturned := true }

/-- Sets what is looked for in the next token. -/
def lookFor (checks : Checks) : Reader Unit :=
  modify fun r => { r with checks }

/-- Passes a comment up to the end of its line. -/
def skipComment : Reader Unit :=
  repeatReading (fun () => do
    let c ← nextChar
    if c = some '\n' ∨ c = none then
      giveBack c
      return .inr ()
    else return .inl ()) readingBound ()

/-- Reads a token as it is written. -/
def rawToken (nested : Nested) : Reader Token := do
  if (← get).isReturned then
    modify fun r => { r with isReturned := false }
    return (← get).token
  else
    repeatReading (fun () => do
      let take (t : Token) : Reader (Unit ⊕ Token) := do
        modify fun r => { r with token := t }
        return .inr t
      let c ← nextJoined
      match c with
      | some ' ' | some '\t' => return .inl ()
      | some '#' =>
        skipComment
        return .inl ()
      | some '\n' =>
        countLine
        take .newline
      | none => take .endOfFile
      | some '&' => take (if ← nextIs '&' then .andIf else .ampersand)
      | some '|' => take (if ← nextIs '|' then .orIf else .bar)
      | some ';' => take (if ← nextIs ';' then .armEnd else .semicolon)
      | some '(' => take .opening
      | some ')' => take .closing
      | _ => return .inr (← readWord nested c)) readingBound ()

/-! ## Here-documents -/

/-- Reads the texts of the here-documents that wait for a line end. -/
def readHereDocuments (nested : Nested) : Reader Unit := do
  let waiting := (← get).waiting
  if !waiting.isEmpty then
    modify fun r => { r with waiting := [], depth := r.depth + 1 }
    waiting.forM fun h => do
      let kind := WordKind.document h.mark h.stripTabs
      let (_, w) ← if h.expands then do readPieces nested kind (.of .double true) (← nextJoined)
        else do readPieces nested kind (.of .single false) (← nextChar)
      let word := WordState.ordered w.pieces
      modify fun r => { r with word, quoted := w.quoted, bodies := (h.number, word) :: r.bodies }
    modify fun r => { r with depth := r.depth - 1 }

/-- Reads a token. What is looked for in it was set before. -/
def readToken (nested : Nested) : Reader Token := do
  repeatReading (fun wanted => do
    let t ← rawToken nested
    let t ← if wanted.newlines then
        repeatReading (fun (t : Token) => do
          if t = .newline then
            readHereDocuments nested
            lookFor .none
            return .inl (← rawToken nested)
          else return .inr t) readingBound t
      else pure t
    let r ← get
    let wanted := wanted.or r.checks
    lookFor .none
    match t, r.quoted, plainText? r.word with
    | .word, false, some text =>
      let name := String.ofList text
      if wanted.reserved ∧ name ∈ reservedWords then
        modify fun r => { r with token := .reserved name }
        return .inr (.reserved name)
      else
        match if wanted.aliases && !r.source.inUse.contains text then r.aliases.lookup text else none with
        | some value =>
          if !value.isEmpty then
            modify fun r => { r with source := r.source.push value (some text) }
          return .inl wanted
        | none => return .inr t
    | _, _, _ => return .inr t) readingBound (← get).checks

def expectToken (nested : Nested) (t : Token) : Reader Unit := do
  if (← readToken nested) ≠ t then unexpected (some t)

/-! ## Redirections -/

def readTarget (nested : Nested) : Reader Redirect := do
  let r ← get
  if r.kind = .here then lookFor { Checks.none with mark := true }
  if (← readToken nested) ≠ .word then unexpected none
  let after ← get
  if r.kind = .here then
    let mark : HereMark := ⟨after.count, literalText after.word, r.stripTabs, !after.quoted⟩
    set { after with
      waiting := after.waiting ++ [mark]
      count := after.count + 1
      deepest := max after.deepest (after.depth + 1) }
    return .mk r.stream .here ((after.known.lookup after.count).getD [])
  else return .mk r.stream r.kind after.word

/-- Reads redirections behind a compound command. -/
def readRedirects (nested : Nested) : Reader (List Redirect) := do
  lookFor { Checks.command with newlines := false }
  repeatReading (fun (rs : List Redirect) => do
    if (← readToken nested) = .redirection then return .inl ((← readTarget nested) :: rs)
    else
      returnToken
      return .inr rs.reverse) readingBound []

/-! ## Commands -/

/-- A simple command as far as it has been read, parts in reverse. -/
structure SimpleParts where
  assignments : List Word
  words : List Word
  redirects : List Redirect

/-- Reads a simple command or the definition of a function. -/
def readSimple (nested : Nested) : Reader Command := do
  let line := (← get).source.line
  repeatReading (fun (p : SimpleParts) => do
    let leading := p.words.isEmpty
    lookFor { Checks.none with aliases := leading }
    let t ← readToken nested
    match t with
    | .word =>
      let w := (← get).word
      if leading ∧ isAssignment w then
        return .inl { p with assignments := w :: p.assignments }
      else return .inl { p with words := w :: p.words }
    | .redirection => return .inl { p with redirects := (← readTarget nested) :: p.redirects }
    | _ =>
      match t, p with
      | .opening, ⟨[], [w], []⟩ =>
        expectToken nested .closing
        let name := (plainText? w).getD []
        if !isName name ∨ String.ofList name ∈ specialCommands then
          faultHere "Bad function name"
        lookFor .laterCommand
        let line := (← get).source.line
        return .inr (.define line name (← nested.command))
      | _, _ =>
        returnToken
        return .inr (.simple line p.assignments.reverse p.words.reverse p.redirects.reverse))
    readingBound ⟨[], [], []⟩

/-- Reads the words behind `in`, up to the end of the line or a semicolon. -/
def readForWords (nested : Nested) : Reader (List Word) :=
  repeatReading (fun (ws : List Word) => do
    match ← readToken nested with
    | .word => return .inl ((← get).word :: ws)
    | .newline | .semicolon => return .inr ws.reverse
    | _ => unexpected none) readingBound []

/-- Reads a loop over words, behind `for`. -/
def readFor (nested : Nested) (line : Nat) : Reader Command := do
  let t ← readToken nested
  let r ← get
  let name := (plainText? r.word).getD []
  if t ≠ .word ∨ r.quoted ∨ !isName name then faultHere "Bad for loop variable"
  lookFor .laterCommand
  let words ← if (← readToken nested) = .reserved "in" then readForWords nested
    else do
      if (← get).token ≠ .semicolon then returnToken
      pure [allArguments]
  lookFor .laterCommand
  expectToken nested (.reserved "do")
  let body ← nested.list
  expectToken nested (.reserved "done")
  return .forEach line name words body

/-- Reads the patterns of an arm, behind the first word. -/
def readPatterns (nested : Nested) : Reader (List Word) :=
  repeatReading (fun (ps : List Word) => do
    let ps := (← get).word :: ps
    if (← readToken nested) = .bar then
      let _ ← readToken nested
      return .inl ps
    else return .inr ps.reverse) readingBound []

/-- Reads the arms of a choice, behind `in`. -/
def readArms (nested : Nested) : Reader (List (List Word × Command)) :=
  let next : Reader Token := do
    lookFor { Checks.none with newlines := true, reserved := true }
    readToken nested
  repeatReading (fun (s : List (List Word × Command) × Option Token) => do
    let (arms, t) := s
    let t ← match t with
      | some t => pure t
      | none => next
    if t = .reserved "esac" then return .inr arms.reverse
    else
      if t = .opening then
        let _ ← readToken nested
      let patterns ← readPatterns nested
      if (← get).token ≠ .closing then unexpected (some .closing)
      let body ← nested.openList
      let t ← next
      let arms := (patterns, body) :: arms
      if t = .reserved "esac" then return .inl (arms, some t)
      else if t = .armEnd then return .inl (arms, none)
      else unexpected (some .armEnd)) readingBound ([], none)

def readCase (nested : Nested) (line : Nat) : Reader Command := do
  expectToken nested .word
  let subject := (← get).word
  lookFor .laterCommand
  expectToken nested (.reserved "in")
  return .choice line subject (← readArms nested)

def readIf (nested : Nested) : Reader Command := do
  let branch : Reader (Command × Command) := do
    let test ← nested.list
    expectToken nested (.reserved "then")
    return (test, ← nested.list)
  let branches ← repeatReading (fun (bs : List (Command × Command)) => do
    let bs := (← branch) :: bs
    if (← readToken nested) = .reserved "elif" then return .inl bs else return .inr bs)
    readingBound []
  let last ← if (← get).token = .reserved "else" then pure (some (← nested.list))
    else do
      returnToken
      pure none
  expectToken nested (.reserved "fi")
  return (branches.foldl (fun alternative b => some (.conditional b.1 b.2 alternative)) last).getD
    .empty

/-- Reads a loop behind `while` or `until`. -/
def readLoop (nested : Nested) (untilTrue : Bool) : Reader Command := do
  let test ← nested.list
  expectToken nested (.reserved "do")
  let body ← nested.list
  expectToken nested (.reserved "done")
  return .loop untilTrue test body

def readCommand (nested : Nested) : Reader Command := do
  let line := (← get).source.line
  let t ← readToken nested
  let withRedirects (c : Command) : Reader Command := do
    match ← readRedirects nested with
    | [] => return c
    | rs => return .redirected line c rs
  match t with
  | .word | .redirection =>
    returnToken
    readSimple nested
  | .opening =>
    let body ← nested.list
    expectToken nested .closing
    return .subshell line body (← readRedirects nested)
  | .reserved w =>
    if w = "if" then withRedirects (← readIf nested)
    else if w = "while" then withRedirects (← readLoop nested false)
    else if w = "until" then withRedirects (← readLoop nested true)
    else if w = "for" then withRedirects (← readFor nested line)
    else if w = "case" then withRedirects (← readCase nested line)
    else if w = "\x7b" then
      let body ← nested.list
      expectToken nested (.reserved "\x7d")
      withRedirects body
    else unexpected none
  | _ => unexpected none

/-- Reads commands with `|` between them, or one, with a `!` in front or not. -/
def readPipeline (nested : Nested) : Reader Command := do
  let negated ← if (← readToken nested) = .reserved "!" then do
      lookFor .command
      pure true
    else do
      returnToken
      pure false
  let first ← readCommand nested
  let command ← if (← readToken nested) = .bar then
      repeatReading (fun (cs : List Command) => do
        lookFor .laterCommand
        let cs := (← readCommand nested) :: cs
        if (← readToken nested) = .bar then return .inl cs
        else return .inr (.pipeline cs.reverse false)) readingBound [first]
    else pure first
  returnToken
  return if negated then .negation command else command

/-- Reads pipelines with `&&` and `||` between them. -/
def readAndOr (nested : Nested) : Reader Command := do
  let first ← readPipeline nested
  repeatReading (fun (c : Command) => do
    let t ← readToken nested
    if t = .andIf ∨ t = .orIf then
      lookFor .laterCommand
      let d ← readPipeline nested
      return .inl (if t = .andIf then .both c d else .either c d)
    else
      returnToken
      return .inr c) readingBound first

/-- Makes a command run without being waited for. -/
def Command.inBackground : Command → Command
  | .pipeline cs _ => .pipeline cs true
  | .redirected line body rs => .background line body rs
  | c => .background 0 c []

/-- The commands that were read, last one first, as one. -/
def joined : List Command → Command
  | [] => .empty
  | [c] => c
  | cs => .sequence cs.reverse

/-- Where a list of commands stands. -/
inductive ListPlace where
  /-- One complete command, up to a line end. -/
  | script
  /-- Inside of a compound command, which needs at least one. -/
  | compound
  /-- Inside of a substitution or behind a pattern, where there may be none. -/
  | open
deriving Repr, DecidableEq

/-- Reads a list of commands; nothing at the end of a script. -/
def readList (nested : Nested) (place : ListPlace) : Reader (Option Command) :=
  let inScript := place = .script
  repeatReading (fun (cs : List Command) => do
    lookFor { Checks.command with newlines := !inScript }
    let ended : Reader (List Command ⊕ Option Command) := do
      readHereDocuments nested
      modify fun r => { r with isReturned := true, token := .endOfFile }
      return .inr (if cs.isEmpty ∧ inScript then none else some (joined cs))
    match ← readToken nested with
    | .newline =>
      readHereDocuments nested
      return .inr (some (joined cs))
    | .endOfFile => ended
    | t =>
      returnToken
      if !inScript ∧ (place = .open ∨ !cs.isEmpty) ∧ t.endsList then
        return .inr (some (joined cs))
      else
        let c ← readAndOr nested
        let t ← readToken nested
        let cs := (if t = .ampersand then c.inBackground else c) :: cs
        match t with
        | .endOfFile =>
          readHereDocuments nested
          modify fun r => { r with isReturned := true, token := .endOfFile }
          return .inr (some (joined cs))
        | .newline =>
          returnToken
          return .inl cs
        | .ampersand | .semicolon => return .inl cs
        | _ =>
          if inScript then unexpected none
          returnToken
          return .inr (some (joined cs))) readingBound []

/-- Reads a list of commands, with nothing as a command of its own. -/
def readListCommand (nested : Nested) (place : ListPlace) : Reader Command := do
  return (← readList nested place).getD .empty

/-- Reads the commands of a substitution, behind its opening parenthesis. Here-documents that have
not started at its end are empty. -/
def readSubstitution (nested : Nested) : Reader Command := do
  let r ← get
  set { r with waiting := [] }
  let body ← readListCommand nested .open
  expectToken nested .closing
  modify fun after => { after with waiting := r.waiting }
  return body

/-- The readers for commands inside of other ones. Commands that nest too deep are faults. -/
def nestedReaders : Nat → Nested
  | 0 => ⟨faultHere "too deep", faultHere "too deep", faultHere "too deep", faultHere "too deep"⟩
  | n + 1 =>
    { list := fun r => readListCommand (nestedReaders n) .compound r
      openList := fun r => readListCommand (nestedReaders n) .open r
      substitution := fun r => readSubstitution (nestedReaders n) r
      command := fun r => readCommand (nestedReaders n) r }

/-! ## Scripts -/

/-- How deep commands may nest in a source. -/
def sourceDepth : Nat := 20000

/-- A reader at the start of a complete command. -/
def Reading.start (source : Source) (aliases : List (Text × Text)) (known : List (Nat × Word)) :
    Reading where
  source := source
  aliases := aliases
  checks := .none
  token := .newline
  isReturned := false
  word := []
  quoted := false
  stream := 0
  kind := .input
  stripTabs := false
  waiting := []
  bodies := []
  known := known
  count := 0
  depth := 0
  deepest := 0

/-- What is left of a source, and a command from the front of it; no command at its end. -/
structure NextCommand where
  command : Option Command
  source : Source

/-- Reads a complete command off a source, with names that stand for other texts. The texts of
here-documents stand behind the commands that use them, so all is read again when they are known, and
once more for each here-document that lies in the text of another one. -/
def Source.nextCommand (s : Source) (aliases : List (Text × Text)) :
    Except SyntaxFault NextCommand :=
  let read (known : List (Nat × Word)) := readList (nestedReaders sourceDepth) .script
    (.start s aliases known)
  let again (r : EStateM.Result SyntaxFault Reading (Option Command)) :=
    match r with
    | .ok _ after => read after.bodies
    | r => r
  let first := read []
  let times := match first with
    | .ok _ after => after.deepest
    | .error _ _ => 0
  match times.repeat again first with
  | .ok command after => .ok ⟨command, after.source⟩
  | .error e _ => .error e

/-- The word that a text as a whole is when it stands in double quotes. -/
def textAsWord? (s : Text) : Option Word :=
  let r := Reading.start (.ofText s) [] []
  let reader : Reader Word := do
    let (_, w) ← readPieces (nestedReaders sourceDepth) .wholeText (.of .double true)
      (← nextJoined)
    return WordState.ordered w.pieces
  match reader r with
  | .ok w _ => some w
  | .error _ _ => none

end CueScript.Shell
