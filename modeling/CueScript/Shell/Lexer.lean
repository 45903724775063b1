import CueScript.Shell.Source

/-!
# CueScript.Shell.Lexer — from characters to words

1. **Quoting** says which characters are special; levels of quoting nest in braces and arithmetic.
2. **Words** are read character by character; pieces that are still open wait for their end.
3. **Expansions** start at a dollar sign or a backquote. Commands inside of them are read by readers
   that are handed in.
4. **Redirections** are told from words by the character behind them.
-/

namespace CueScript.Shell

/-! ## Quoting -/

inductive Quoting where
  | none
  | double
  | single
  | arithmetic
deriving Repr, DecidableEq

inductive CharRole where
  | ordinary
  | lineEnd
  | backslash
  | singleQuote
  | doubleQuote
  | endQuote
  | backquote
  | dollar
  | closingBrace
  | openingParenthesis
  | closingParenthesis
  /-- Ends a word that is not in quotes or braces. -/
  | delimiter
deriving Repr, DecidableEq

def Quoting.role (q : Quoting) (c : Char) : CharRole :=
  match q, c with
  | _, '\n' => .lineEnd
  | .single, '\'' => .endQuote
  | .single, _ => .ordinary
  | _, '\\' => .backslash
  | _, '\x60' => .backquote
  | _, '$' => .dollar
  | _, '\x7d' => .closingBrace
  | .double, '"' => .endQuote
  | .none, '"' => .doubleQuote
  | .none, '\'' => .singleQuote
  | .none, '<' | .none, '>' | .none, '(' | .none, ')' | .none, ';' | .none, '&' | .none, '|'
  | .none, ' ' | .none, '\t' => .delimiter
  | .arithmetic, '(' => .openingParenthesis
  | .arithmetic, ')' => .closingParenthesis
  | _, _ => .ordinary

/-- A level of quoting. -/
structure Level where
  quoting : Quoting
  /-- Whether backslashes keep their meaning only in front of some characters. -/
  doubleQuoted : Bool
  /-- Whether double quotes are open inside of braces. -/
  innerQuote : Bool
  /-- Whether the level ends with its braces. -/
  endsWithBraces : Bool
  /-- The number of open braces, and of those that were opened in double quotes. -/
  braces : Nat
  quotedBraces : Nat
  parentheses : Nat
deriving Repr, DecidableEq

/-- A level in which nothing is open. -/
def Level.of (q : Quoting) (doubleQuoted : Bool) : Level :=
  ⟨q, doubleQuoted, false, false, 0, 0, 0⟩

/-! ## Words -/

inductive WordKind where
  | word
  /-- A here-document with its end mark. -/
  | document (mark : Text) (stripTabs : Bool)
  /-- A text to its end. -/
  | wholeText
deriving Repr, DecidableEq

/-- Whether a word is a part of a command. -/
def WordKind.isWord : WordKind → Bool
  | word => true
  | document _ _ | wholeText => false

/-- A piece that is still open, and the pieces in front of it, last one first. -/
structure OpenPiece where
  close : Word → Piece
  before : Word

/-- A word as far as it has been read. -/
structure WordState where
  level : Level
  outer : List Level
  /-- The pieces, last one first, with their characters in reverse. -/
  pieces : Word
  opened : List OpenPiece
  /-- Whether a part of the word was quoted. -/
  quoted : Bool

namespace WordState

def start (l : Level) : WordState :=
  ⟨l, [], [], [], false⟩

def put (w : WordState) (escaped : Bool) (c : Char) : WordState :=
  match escaped, w.pieces with
  | false, .plain s :: ps => { w with pieces := .plain (c :: s) :: ps }
  | false, ps => { w with pieces := .plain [c] :: ps }
  | true, .escaped s :: ps => { w with pieces := .escaped (c :: s) :: ps }
  | true, ps => { w with pieces := .escaped [c] :: ps }

/-- Adds a character as its level has it. Quotes around characters that are no signs do not count. -/
def putHere (w : WordState) (c : Char) : WordState :=
  w.put (isSign c && (w.level.quoting == .single || w.level.quoting == .double)) c

def putPiece (w : WordState) (p : Piece) : WordState :=
  { w with pieces := p :: w.pieces }

def ordered (ps : Word) : Word :=
  ps.foldl (fun out p =>
    (match p with
      | .plain s => .plain s.reverse
      | .escaped s => .escaped s.reverse
      | p => p) :: out) []

def openPiece (w : WordState) (close : Word → Piece) : WordState :=
  { w with pieces := [], opened := ⟨close, w.pieces⟩ :: w.opened }

/-- Closes the innermost open piece. -/
def closePiece (w : WordState) : WordState :=
  match w.opened with
  | [] => w
  | o :: opened => { w with pieces := o.close (ordered w.pieces) :: o.before, opened }

def enter (w : WordState) (l : Level) : WordState :=
  { w with level := l, outer := w.level :: w.outer }

def leave (w : WordState) : WordState :=
  match w.outer with
  | [] => w
  | l :: outer => { w with level := l, outer }

def withLevel (w : WordState) (f : Level → Level) : WordState :=
  { w with level := f w.level }

/-- Adds a quote; here-documents have none. -/
def putQuote (w : WordState) (kind : WordKind) : WordState :=
  if kind.isWord then w.putPiece .quote else w

/-- Starts or ends double quotes, which count apart inside of braces. -/
def toggleQuote (w : WordState) (kind : WordKind) : WordState :=
  (w.withLevel fun l =>
    if 0 < l.braces then { l with innerQuote := !l.innerQuote } else l).putQuote kind

/-- Reads a quote that ends quotes. -/
def endQuote (w : WordState) (kind : WordKind) (c : Char) : WordState :=
  if !kind.isWord && w.level.braces = 0 then w.putHere c
  else
    let w := { w with quoted := true }
    let w := w.withLevel fun l =>
      if l.quotedBraces = 0 then { l with quoting := .none, doubleQuoted := false } else l
    if c = '"' then w.toggleQuote kind else w.putQuote kind

def closeBrace (w : WordState) : WordState :=
  if w.level.innerQuote ∨ w.level.braces = 0 then w.putHere '\x7d'
  else
    let w := w.closePiece
    if w.level.braces = 1 ∧ w.level.endsWithBraces then w.leave
    else w.withLevel fun l => { l with braces := l.braces - 1, quotedBraces := l.quotedBraces - 1 }

def keepsBackslash (w : WordState) (kind : WordKind) (c : Char) : Bool :=
  w.level.doubleQuoted && c ∉ ['\\', '\x60', '$']
    && (c ≠ '"' || (!kind.isWord && w.level.braces = 0))
    && (c ≠ '\x7d' || w.level.braces = 0)

end WordState

/-! ## Expansions -/

/-- Readers of the commands inside of other ones. -/
structure Nested where
  /-- Reads commands up to a token that ends them, at least one. -/
  list : Reader Command
  /-- Reads commands up to a token that ends them, if there are any. -/
  openList : Reader Command
  /-- Reads the commands of a substitution in parentheses, behind the opening one. -/
  substitution : Reader Command
  /-- Reads a command. -/
  command : Reader Command

/-- Parameters with names of one special character. -/
def isSpecialParameter (c : Char) : Bool :=
  c.isDigit || c ∈ ['@', '*', '#', '?', '-', '$', '!']

/-- Whether something holds of a character that is there. -/
def holds (p : Char → Bool) (c : Option Char) : Bool :=
  c.any p

/-- Reads a run of characters that starts with a given one; the character behind it comes with it. -/
def readRun (p : Char → Bool) (c : Char) : Reader (Text × Option Char) :=
  repeatReading (fun (s : Text) => do
    match ← nextJoined with
    | some d => if p d then return .inl (d :: s) else return .inr (s.reverse, some d)
    | none => return .inr (s.reverse, none)) readingBound [c]

/-- What the braces around a parameter have shown so far. -/
inductive BraceUse where
  /-- There are no braces. -/
  | bare
  | undecided
  | length
deriving Repr, DecidableEq

/-- A parameter with the character behind its name. -/
structure ParameterHead where
  name : Text
  use : BraceUse
  next : Option Char
  /-- Whether the name or what follows it is wrong. -/
  isBad : Bool

/-- Reads a name that starts with a given character. -/
def readNamed (use : BraceUse) (c : Option Char) : Reader ParameterHead := do
  match c with
  | none =>
    let d ← nextJoined
    return ⟨[], use, d, true⟩
  | some c =>
    if isNameStart c then
      let (name, next) ← readRun isNameChar c
      return ⟨name, use, next, false⟩
    else if c.isDigit then
      if use = .bare then return ⟨[c], use, ← nextJoined, false⟩
      else
        let (name, next) ← readRun Char.isDigit c
        return ⟨name, use, next, false⟩
    else if c = '\x7d' then return ⟨[], use, some c, true⟩
    else
      let d ← nextJoined
      return ⟨[c], use, d, !isSpecialParameter c⟩

/-- Reads the name of a parameter, behind the sign for its length if there is one. -/
def readHead (use : BraceUse) (c : Option Char) : Reader ParameterHead := do
  if use ≠ .undecided ∨ c ≠ some '#' then readNamed use c
  else
    let d ← nextJoined
    if holds isNameChar d then readNamed .length d
    else
      let e ← nextJoined
      if d = some '\x7d' ∨ e ≠ some '\x7d' then
        giveBack e
        return ⟨['#'], .undecided, d, false⟩
      else
        match d with
        | some d => return ⟨[d], if isSpecialParameter d then .length else .undecided, e,
            !isSpecialParameter d⟩
        | none => return ⟨[], .undecided, e, true⟩

/-- The use that a character behind the name of a parameter stands for. -/
def useOf? (orEmpty : Bool) : Char → Option (Word → ParameterUse)
  | '-' => some (.orElse orEmpty)
  | '+' => some (.andThen orEmpty)
  | '?' => some (.orFail orEmpty)
  | '=' => some (.orAssign orEmpty)
  | '\x7d' => if orEmpty then some fun _ => .value else none
  | _ => none

/-- Opens the braces around a parameter. Patterns are read without the quotes around them. -/
def WordState.openBraces (w : WordState) (pattern : Bool) (close : Word → Piece) : WordState :=
  let quoting := if pattern then .none
    else if w.level.quoting = .arithmetic then .double else w.level.quoting
  let w := w.openPiece close
  let w := if quoting ≠ w.level.quoting ∨ w.level.innerQuote then
      w.enter { Level.of quoting (quoting ≠ .none) with endsWithBraces := true }
    else w
  w.withLevel fun l =>
    { l with braces := l.braces + 1,
             quotedBraces := if l.doubleQuoted then l.quotedBraces + 1 else l.quotedBraces }

/-- Reads what is done with a parameter, behind its name. -/
def readUse (w : WordState) (h : ParameterHead) : Reader WordState := do
  let bad : Word → Piece := fun _ => .parameter h.name .bad
  let give (use : Word → ParameterUse) : Word → Piece := fun ps => .parameter h.name (use ps)
  if h.use = .bare then
    giveBack h.next
    return w.putPiece (.parameter h.name .value)
  else if h.isBad then
    giveBack h.next
    return w.openBraces false bad
  else if h.use = .length then
    giveBack h.next
    if h.next = some '\x7d' then return w.openBraces false (give fun _ => .length)
    else return w.openBraces false bad
  else
    match h.next with
    | some '\x7d' => return w.putPiece (.parameter h.name .value)
    | some ':' =>
      let c ← nextJoined
      match c.bind (useOf? true) with
      | some use => return w.openBraces false (give use)
      | none => return w.openBraces false bad
    | some c =>
      if c = '%' ∨ c = '#' then
        let d ← nextJoined
        if d = some c then
          return w.openBraces true (give (.trim (c = '%') true))
        else
          giveBack d
          return w.openBraces true (give (.trim (c = '%') false))
      else
        match useOf? false c with
        | some use => return w.openBraces false (give use)
        | none => return w.openBraces false bad
    | none => return w.openBraces false bad

/-- Reads an expansion behind its dollar sign. -/
def readDollar (nested : Nested) (w : WordState) : Reader WordState := do
  let c ← nextJoined
  let marks := (← get).checks.mark
  let starts (c : Char) : Bool :=
    c == '(' || c == '\x7b' || isNameStart c || isSpecialParameter c
  if marks ∨ !holds starts c then
    giveBack c
    return w.putHere '$'
  else if c = some '(' then
    let d ← nextJoined
    if d = some '(' then
      return (w.openPiece .arithmetic).enter (.of .arithmetic true)
    else
      giveBack d
      let body ← nested.substitution
      return w.putPiece (.substitution body)
  else if c = some '\x7b' then
    let h ← readHead .undecided (← nextJoined)
    readUse w h
  else
    let h ← readHead .bare c
    readUse w h

/-- Reads the text between backquotes, behind the first one. -/
def readBackquoted (doubleQuoted : Bool) : Reader Text :=
  repeatReading (fun (s : Text) => do
    match ← nextJoined with
    | some '\x60' => return .inr s.reverse
    | some '\\' =>
      let d ← nextChar
      match d with
      | none => return .inl ('\\' :: s)
      | some d =>
        if d = '\\' ∨ d = '\x60' ∨ d = '$' ∨ (doubleQuoted ∧ d = '"') then return .inl (d :: s)
        else return .inl (d :: '\\' :: s)
    | some '\n' =>
      countLine
      return .inl ('\n' :: s)
    | some c => return .inl (c :: s)
    | none => faultHere "EOF in backquote substitution") readingBound []

/-- Reads commands from a text of its own. Here-documents that have not started at its end are
empty. -/
def readInside (list : Reader Command) (text : Text) : Reader Command := do
  let r ← get
  set { r with source := { Source.ofText text with inUse := r.source.inUse }, waiting := [] }
  let body ← list
  modify fun after =>
    { after with
      source := { r.source with inUse := after.source.inUse }
      waiting := r.waiting
      isReturned := false }
  return body

/-! ## Reading words -/

/-- Looks for the end mark of a here-document at the start of a line, whose first character has been
read. Gives the character to go on with, which is the end when the mark stands there. -/
def checkMark (mark : Text) (stripTabs : Bool) (c : Option Char) : Reader (Option Char) := do
  let c ← if stripTabs then
      repeatReading (fun (c : Option Char) => do
        if c = some '\t' then return .inl (← nextChar) else return .inr c) readingBound c
    else pure c
  -- what is left of the mark, the last character and those in front of it, last one first
  repeatReading (fun (s : Text × Option Char × Text) => do
    let (mark, c, seen) := s
    match mark with
    | m :: mark =>
      if c = some m then return .inl (mark, ← nextChar, m :: seen)
      else finish seen c
    | [] =>
      if c = some '\n' ∨ c = none then
        countLine
        return .inr none
      else finish seen c) readingBound (mark, c, [])
where
  /-- Puts what was read in vain back, but for its first character. -/
  finish (seen : Text) (c : Option Char) : Reader ((Text × Option Char × Text) ⊕ Option Char) := do
    match seen.reverse with
    | [] => return .inr c
    | first :: rest =>
      let text := rest ++ c.toList
      if !text.isEmpty then
        modify fun r => { r with source := r.source.push text none }
      return .inr (some first)

inductive WordStep where
  /-- Goes on with the next character. -/
  | next (w : WordState)
  /-- Goes on with the next character, which starts a line. -/
  | line (w : WordState)
  /-- The word has ended in front of the character. -/
  | done (w : WordState)

def readWordChar (nested : Nested) (kind : WordKind) (w : WordState) (c : Char) :
    Reader WordStep := do
  match w.level.quoting.role c with
  | .ordinary => return .next (w.putHere c)
  | .lineEnd =>
    if w.level.quoting = .none ∧ w.level.braces = 0 then return .done w
    else
      countLine
      return .line (w.putHere c)
  | .delimiter => if w.level.braces = 0 then return .done w else return .next (w.putHere c)
  | .backslash =>
    let d ← nextChar
    match d with
    | none =>
      giveBack none
      return .next (w.put true '\\')
    | some '\n' =>
      countLine
      return .next w
    | some d =>
      let w := if w.keepsBackslash kind d then w.put true '\\' else w
      return .next { w.put true d with quoted := true }
  | .singleQuote => return .next ((w.withLevel ({ · with quoting := .single })).putQuote kind)
  | .doubleQuote =>
    return .next ((w.withLevel ({ · with quoting := .double, doubleQuoted := true })).toggleQuote
      kind)
  | .endQuote => return .next (w.endQuote kind c)
  | .dollar => return .next (← readDollar nested w)
  | .closingBrace => return .next w.closeBrace
  | .openingParenthesis =>
    return .next ((w.withLevel fun l => { l with parentheses := l.parentheses + 1 }).putHere c)
  | .closingParenthesis =>
    if 0 < w.level.parentheses then
      return .next ((w.withLevel fun l => { l with parentheses := l.parentheses - 1 }).putHere c)
    else
      let d ← nextJoined
      if d = some ')' then return .next w.closePiece.leave
      else
        giveBack d
        return .next (w.putHere c)
  | .backquote =>
    if (← get).checks.mark then return .next (w.putHere c)
    else
      let text ← readBackquoted w.level.doubleQuoted
      let body ← readInside nested.openList text
      return .next (w.putPiece (.substitution body))

/-- Reads a word that starts with a given character, to the character behind it. -/
def readPieces (nested : Nested) (kind : WordKind) (l : Level) (first : Option Char) :
    Reader (Option Char × WordState) := do
  let atLine (c : Option Char) : Reader (Option Char) :=
    match kind with
    | .document mark stripTabs => checkMark mark stripTabs c
    | .word | .wholeText => return c
  let (c, w) ← repeatReading (fun (s : Option Char × WordState) => do
    let (c, w) := s
    match c with
    | none => return .inr (none, w)
    | some ch =>
      match ← readWordChar nested kind w ch with
      | .next w => return .inl (← nextChar, w)
      | .line w => return .inl (← atLine (← nextChar), w)
      | .done w => return .inr (c, w)) readingBound (← atLine first, .start l)
  if w.level.quoting = .arithmetic then faultHere "Missing '))'"
  else if w.level.quoting ≠ .none ∧ kind.isWord then faultHere "Unterminated quoted string"
  else if w.level.braces ≠ 0 then faultHere "Missing '\x7d'"
  else return (c, w)

/-! ## Redirections -/

/-- Takes the next character if it is a given one. -/
def nextIs (c : Char) : Reader Bool := do
  let d ← nextJoined
  if d = some c then return true
  else
    giveBack d
    return false

/-- Reads the rest of a redirection behind its first sign. -/
def readRedirection (stream : Option Nat) (sign : Char) : Reader Unit := do
  let put (standard : Nat) (kind : RedirectKind) (stripTabs : Bool) : Reader Unit :=
    modify fun r => { r with stream := stream.getD standard, kind, stripTabs }
  if sign = '>' then
    if ← nextIs '>' then put 1 .append false
    else if ← nextIs '|' then put 1 .overwrite false
    else if ← nextIs '&' then put 1 .duplicate false
    else put 1 .output false
  else if ← nextIs '<' then put 0 .here (← nextIs '-')
  else if ← nextIs '&' then put 0 .duplicate false
  else if ← nextIs '>' then put 0 .readWrite false
  else put 0 .input false

/-- The number of a stream that a word in front of a redirection gives: nothing at all, or one digit.
The outer result is missing for any other word. -/
def streamNumber? (w : Word) : Option (Option Nat) :=
  match w with
  | [] => some none
  | [.plain [d]] => if d.isDigit then some (some (d.toNat - 48)) else none
  | _ => none

/-- Reads a word or a redirection that starts with a given character. -/
def readWord (nested : Nested) (first : Option Char) : Reader Token := do
  let (c, w) ← readPieces nested .word (.of .none false) first
  let pieces := WordState.ordered w.pieces
  match c, streamNumber? pieces, w.quoted with
  | some '<', some stream, false =>
    readRedirection stream '<'
    modify fun r => { r with token := .redirection }
    return .redirection
  | some '>', some stream, false =>
    readRedirection stream '>'
    modify fun r => { r with token := .redirection }
    return .redirection
  | _, _, _ =>
    giveBack c
    modify fun r => { r with token := .word, word := pieces, quoted := w.quoted }
    return .word

end CueScript.Shell
