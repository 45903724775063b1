import CueScript.Shell.Arithmetic
import CueScript.Shell.Fields
import CueScript.Shell.Paths
import CueScript.Shell.Redirection
import CueScript.Shell.Variables

/-!
# CueScript.Shell.Expansion — from words to texts

1. **Parameters** have values, which are marks, and values are cut by patterns.
2. **Tildes** at the start of a word or of a part of an assigned value stand for home directories.
3. **Words** are expanded piece by piece to spans. Commands in them are run by an action that is
   handed in.
4. **Uses** of expanded words: as fields, as one text, as a pattern, as the target of a redirection.
-/

namespace CueScript.Shell

/-- Runs a command and gives its output. -/
abbrev Substitute := Command → Exec Text

structure WordMode where
  /-- Whether the word becomes fields. -/
  fields : Bool
  quoted : Bool
  /-- Whether the word stands in for the value of a parameter. -/
  standsIn : Bool
  /-- Whether the word assigns to a variable, and whether the equals sign has been passed. -/
  assigns : Bool
  pastEquals : Bool
deriving Repr, DecidableEq

namespace WordMode

/-- The mode of words that become fields. -/
def forFields : WordMode := ⟨true, false, false, false, false⟩

/-- The mode of words that become one text. -/
def forText : WordMode := ⟨false, false, false, false, false⟩

def forAssignment : WordMode := { forText with assigns := true }

def forQuoted : WordMode := { forText with quoted := true }

end WordMode

/-! ## Parameters -/

/-- All arguments as marks, with something between them. -/
def argumentMarks (p : Process) (mode : WordMode) (isStar : Bool) : List Mark :=
  let between : List Mark :=
    if mode.fields ∧ mode.quoted ∧ !isStar then [.char argumentEnd false]
    else
      match p.value? "IFS".toList with
      | none => valueMarks mode.quoted [' ']
      | some ifs =>
        if mode.fields ∧ !mode.quoted then [.char argumentEnd false]
        else valueMarks mode.quoted (ifs.take 1)
  ((p.args.map (valueMarks mode.quoted)).intersperse between).flatten

def parameter? (p : Process) (mode : WordMode) (name : Text) : Option (List Mark) :=
  let given (s : Text) := some (valueMarks mode.quoted s)
  match name with
  | ['?'] => given (natText p.status)
  | ['$'] => given (natText p.shell)
  | ['#'] => given (natText p.args.length)
  | ['-'] => given (Setting.letters p.settings)
  | ['!'] => p.lastJob.bind fun pid => given (natText pid)
  | ['@'] => some (argumentMarks p mode false)
  | ['*'] => some (argumentMarks p mode true)
  | c :: _ =>
    if c.isDigit then
      match natOf? name with
      | some 0 => given p.name
      | some n => p.args[n - 1]?.bind given
      | none => none
    else (p.value? name).bind given
  | [] => none

/-- The part of a text in front of the end of the first argument in it. -/
def firstArgument (s : Text) : Text :=
  s.takeWhile (· != argumentEnd)

/-- The value of a parameter without the shortest or longest part at its start or end that fits a
pattern. A part does not reach beyond the end of an argument. -/
def trimmed (atEnd longest : Bool) (pattern : List PatternElement) (value : List Mark) :
    List Mark :=
  let text := marksText value
  let leftmost := !atEnd != longest
  let counts := List.range ((if leftmost then firstArgument text else text).length + 1)
  let counts := if leftmost then counts else counts.reverse
  let part (n : Nat) := firstArgument (if atEnd then text.drop n else text.take n)
  match counts.find? fun n => fits pattern (part n) with
  | some n => if atEnd then value.take n else value.drop n
  | none => value

def failUnset {α : Type} (name problem : Text) : Exec α :=
  fail (name ++ ": ".toList ++ problem)

/-- The span of a value. Between quotes only the ends of arguments count. -/
def valueSpan (p : Process) (mode : WordMode) (name : Text) (value : List Mark) : Span :=
  if !mode.quoted then .region false value
  else if name = ['@'] ∧ !p.args.isEmpty then .region true value
  else .fixed value

/-! ## Tildes -/

def homeOf? (w : World) (user : Text) : Option Text :=
  let lines := (String.ofList (textOfBytes (w.contentAt ["etc", "passwd"]))).splitOn "\n"
  lines.findSome? fun line =>
    match line.splitOn ":" with
    | name :: _ :: _ :: _ :: _ :: home :: _ => if name.toList = user then some home.toList else none
    | _ => none

/-- The home directory that a tilde with a name behind it stands for. -/
def Machine.home? (m : Machine) (user : Text) : Option Text :=
  if user.isEmpty then m.process.value? "HOME".toList else homeOf? m.world user

/-- Cuts a tilde with the name behind it off a text and gives the home directory. The name has to
end in the text, or with it if nothing follows. -/
def Machine.tilde? (m : Machine) (colonEnds isLast : Bool) (s : Text) : Option (Text × Text) :=
  match s with
  | '~' :: s =>
    let stays (c : Char) : Bool := c != '/' && !(colonEnds && c == ':')
    let rest := s.dropWhile stays
    if rest.isEmpty ∧ !isLast then none
    else (m.home? (s.takeWhile stays)).map fun home => (home, rest)
  | _ => none

/-- The texts and home directories of a text without quotes, in order, and whether an equals sign
has been passed. The bound is on the number of characters. -/
def Machine.plainParts (m : Machine) (mode : WordMode) (isLast : Bool) :
    Nat → Bool → Bool → Text → List (Text ⊕ Text) × Bool
  | 0, _, pastEquals, _ => ([], pastEquals)
  | n + 1, atStart, pastEquals, s =>
    match if atStart then m.tilde? mode.assigns isLast s else none with
    | some (home, rest) =>
      let (parts, pastEquals) := m.plainParts mode isLast n false pastEquals rest
      (.inr home :: parts, pastEquals)
    | none =>
      let stays (c : Char) : Bool := !mode.assigns || (c != ':' && (pastEquals || c != '='))
      let text := s.takeWhile stays
      match s.dropWhile stays with
      | [] => (if text.isEmpty then [] else [.inl text], pastEquals)
      | c :: rest =>
        let (parts, pastEquals) := m.plainParts mode isLast n true (pastEquals || c == '=') rest
        (.inl (text ++ [c]) :: parts, pastEquals)

/-! ## Words -/

/-- A text that an expansion makes, as a span. -/
def newSpan (mode : WordMode) (text : Text) : Span :=
  if mode.quoted then .fixed (valueMarks true text) else .region false (valueMarks false text)

/-- The value of an arithmetic expression as a text; its assignments are carried out. -/
def evaluateArithmetic (source : Text) : Exec Text := do
  let p ← process
  let result := evaluateArith ⟨p.value?, p.isConstant⟩ source
  result.assigned.forM fun a => assign a.1 a.2
  let report {α : Type} (what : String) : Exec α :=
    fail ("arithmetic expression: ".toList ++ what.toList ++ ": \"".toList ++ source ++ ['"'])
  match result.value with
  | .ok i => return integerText i
  | .error (.expected what) => report ("expecting " ++ what)
  | .error .divisionByZero => report "division by zero"
  | .error (.illegalNumber s) => failNumber s
  | .error (.readOnly x) => fail (x ++ ": is read only".toList)
  | .error .overflow => throw (.killed 8)

/-- Whether a word goes on with all arguments and a quote. -/
def startsWithArguments : Word → Bool
  | .parameter ['@'] .value :: .quote :: _ => true
  | _ => false

/-- How far the expansion of a word has come. -/
structure WordPlace where
  /-- The number of pieces that are passed over. -/
  passed : Nat
  /-- Whether a quote has been opened. -/
  inQuotes : Bool
  /-- Whether a tilde may follow. -/
  atStart : Bool
deriving Repr, DecidableEq

mutual
/-- Expands the pieces of a word from a place on. All arguments between quotes of their own are
expanded without the quotes, so that there is no field when there are no arguments. -/
def expandPieces (substitute : Substitute) (mode : WordMode) (place : WordPlace) :
    List Piece → Exec (List Span)
  | [] => return []
  | p :: ps => do
    let here := { mode with quoted := mode.quoted || place.inQuotes }
    if 0 < place.passed then
      expandPieces substitute mode { place with passed := place.passed - 1 } ps
    else
      let next : WordPlace := { place with atStart := false }
      match p with
      | .plain s =>
        let (parts, pastEquals) := (← get).plainParts mode ps.isEmpty (2 * s.length + 2) place.atStart
          mode.pastEquals s
        let cuts := mode.standsIn && !here.quoted
        let spans := parts.map fun
          | .inl text =>
            let marks := text.map fun c => Mark.char c false
            if cuts then Span.region false marks else .fixed marks
          | .inr home => .fixed (valueMarks true home)
        return spans ++ (← expandPieces substitute { mode with pastEquals } next ps)
      | .escaped s =>
        let span := Span.fixed (s.map fun c => .char c true)
        return span :: (← expandPieces substitute mode next ps)
      | .quote =>
        if !place.inQuotes ∧ startsWithArguments ps then
          let quoted := { mode with quoted := true }
          let p ← process
          let span := valueSpan p quoted ['@'] (argumentMarks p quoted false)
          return span :: (← expandPieces substitute mode { next with passed := 2 } ps)
        else
          let next := { next with inQuotes := !next.inQuotes }
          return .fixed [.quote] :: (← expandPieces substitute mode next ps)
      | .parameter name use =>
        let spans ← expandUse substitute here name use
        return spans ++ (← expandPieces substitute mode next ps)
      | .substitution body =>
        let span := newSpan here (← substitute body)
        return span :: (← expandPieces substitute mode next ps)
      | .arithmetic body =>
        let source := marksText (spanMarks (← expandPieces substitute .forText ⟨0, false, false⟩ body))
        let span := newSpan here (← evaluateArithmetic source)
        return span :: (← expandPieces substitute mode next ps)

/-- Expands a parameter. -/
def expandUse (substitute : Substitute) (mode : WordMode) (name : Text) :
    ParameterUse → Exec (List Span)
  | .bad => fail "Bad substitution".toList
  | .value => do
    let p ← process
    match parameter? p mode name with
    | some v => return [valueSpan p mode name v]
    | none =>
      if p.has .nounset then failUnset name "parameter not set".toList
      else return []
  | .length => do
    let p ← process
    match parameter? p { mode with fields := false } name with
    | some v => return [newSpan mode (natText v.length)]
    | none =>
      if p.has .nounset then failUnset name "parameter not set".toList
      else return [newSpan mode ['0']]
  | .orElse orEmpty word => do
    let p ← process
    match (parameter? p mode name).filter fun v => !(orEmpty && v.isEmpty) with
    | some v => return [valueSpan p mode name v]
    | none => expandPieces substitute { mode with standsIn := true } ⟨0, false, true⟩ word
  | .andThen orEmpty word => do
    let p ← process
    match (parameter? p mode name).filter fun v => !(orEmpty && v.isEmpty) with
    | some _ => expandPieces substitute { mode with standsIn := true } ⟨0, false, true⟩ word
    | none => return [valueSpan p mode name []]
  | .orAssign orEmpty word => do
    let p ← process
    match (parameter? p mode name).filter fun v => !(orEmpty && v.isEmpty) with
    | some v => return [valueSpan p mode name v]
    | none =>
      let spans ← expandPieces substitute .forText ⟨0, false, true⟩ word
      assign name (marksText (spanMarks spans))
      let p ← process
      return [valueSpan p mode name ((parameter? p mode name).getD [])]
  | .orFail orEmpty word => do
    let p ← process
    match (parameter? p mode name).filter fun v => !(orEmpty && v.isEmpty) with
    | some v => return [valueSpan p mode name v]
    | none =>
      let spans ← expandPieces substitute .forText ⟨0, false, true⟩ word
      failUnset name (if word.isEmpty then
          "parameter not set".toList ++ (if orEmpty then " or null".toList else [])
        else marksText (spanMarks spans))
  | .trim atEnd longest pattern => do
    let p ← process
    match parameter? p mode name with
    | none =>
      if p.has .nounset then failUnset name "parameter not set".toList
      else return []
    | some v =>
      let spans ← expandPieces substitute .forText ⟨0, false, true⟩ pattern
      let elements := toPattern (spelling (spanMarks spans))
      return [valueSpan (← process) mode name (trimmed atEnd longest elements v)]
end

/-! ## Uses -/

def expandText (substitute : Substitute) (mode : WordMode) (word : Word) : Exec Text := do
  return marksText (spanMarks (← expandPieces substitute mode ⟨0, false, !mode.quoted⟩ word))

def expandPattern (substitute : Substitute) (word : Word) : Exec (List PatternElement) := do
  let spans ← expandPieces substitute .forText ⟨0, false, true⟩ word
  return toPattern (spelling (spanMarks spans))

/-- The fields of a word. Those that are patterns for paths are replaced by the paths. -/
def expandFields (substitute : Substitute) (word : Word) : Exec (List Text) := do
  let spans ← expandPieces substitute .forFields ⟨0, false, true⟩ word
  let m ← get
  let fields := cutFields m.process.separators none spans
  return fields.flatMap fun field =>
    let text := marksText field
    if m.process.has .noglob ∨ !hasSigns text then [text]
    else
      match pathsOf m.world (spelling field) with
      | [] => [text]
      | paths => paths

def expandAll (substitute : Substitute) (words : List Word) : Exec (List Text) := do
  return (← words.mapM (expandFields substitute)).flatten

/-- Reports a stream that is named by something else than a digit. -/
def failStream {α : Type} : Exec α := do
  alter fun p => { p with line := p.inputLine }
  fail "Syntax error: Bad fd number".toList

def expandRedirect (substitute : Substitute) : Redirect → Exec Redirection
  | .mk stream kind word => do
    let path (access : Access) : Exec Redirection := do
      return ⟨stream, .path access (← expandText substitute .forText word)⟩
    match kind with
    | .input => path .read
    | .output => path (if (← process).has .noclobber then .writeNew else .write)
    | .overwrite => path .write
    | .append => path .append
    | .readWrite => path .readWrite
    | .here => return ⟨stream, .text word⟩
    | .duplicate =>
      match ← expandFields substitute word with
      | [] => fail "redir error".toList
      | ['-'] :: _ => return ⟨stream, .closed⟩
      | [d] :: _ => if d.isDigit then return ⟨stream, .stream (d.toNat - 48)⟩ else failStream
      | _ => failStream

def expandRedirects (substitute : Substitute) (rs : List Redirect) : Exec (List Redirection) :=
  rs.mapM (expandRedirect substitute)

end CueScript.Shell
