import CueScript.Shell.Bytes

/-!
# CueScript.Shell.Pattern — patterns and what fits them

1. **Marks**: an expanded word is a sequence of characters, escaped or not, and of quotes. Its
   spelling as a pattern has backslashes in front of escaped characters.
2. **Patterns** are read off their spelling: a character, any character, any text, or a set of
   characters.
3. **Fitting**: a text fits a pattern as a whole.
-/

namespace CueScript.Shell

/-! ## Marks -/

/-- A part of an expanded word. -/
inductive Mark where
  | char (c : Char) (escaped : Bool)
  /-- A quote stood here. -/
  | quote
deriving Repr, DecidableEq

def marksText (ms : List Mark) : Text :=
  ms.filterMap fun
    | .char c _ => some c
    | .quote => none

/-- The marks of a text that comes from an expansion: in quotes, signs are escaped. -/
def valueMarks (quoted : Bool) (s : Text) : List Mark :=
  s.map fun c => .char c (quoted && isSign c)

/-- The spelling of an expanded word as a pattern. A backslash that is not escaped protects the
character behind it, unless a quote stands between them. -/
def spelling (ms : List Mark) : Text :=
  go false true ms
where
  /-- `free` tells that no backslash protects the next character. -/
  go (inQuotes free : Bool) : List Mark → Text
    | [] => []
    | .quote :: ms => go (!inQuotes) true ms
    | .char '\\' false :: ms => '\\' :: go inQuotes false ms
    | .char c false :: ms => c :: go inQuotes true ms
    | .char c true :: ms =>
      (if free then ['\\'] else if inQuotes then ['\\', '\\'] else []) ++ c :: go inQuotes true ms

/-! ## Patterns -/

inductive PatternElement where
  | char (c : Char)
  | anyChar
  | anyText
  /-- A character that lies in one of the ranges, or in none when `inverted` is set. -/
  | oneOf (inverted : Bool) (ranges : List (Char × Char))
deriving Repr, DecidableEq

/-- The number by which bytes are ordered in ranges: the upper half lies below the lower one. -/
def byteOrder (c : Char) : Int :=
  if c.toNat < 128 then c.toNat else (c.toNat : Int) - 256

def inRanges (c : Char) (ranges : List (Char × Char)) : Bool :=
  ranges.any fun r => byteOrder r.1 ≤ byteOrder c && byteOrder c ≤ byteOrder r.2

/-- The ranges of a named class of characters. -/
def classRanges? (name : String) : Option (List (Char × Char)) :=
  [("alpha", [('A', 'Z'), ('a', 'z')]), ("digit", [('0', '9')]),
    ("alnum", [('0', '9'), ('A', 'Z'), ('a', 'z')]), ("upper", [('A', 'Z')]),
    ("lower", [('a', 'z')]), ("space", [('\t', '\x0d'), (' ', ' ')]),
    ("blank", [('\t', '\t'), (' ', ' ')]), ("xdigit", [('0', '9'), ('A', 'F'), ('a', 'f')]),
    ("punct", [('!', '/'), (':', '@'), ('[', Char.ofNat 96), ('\x7b', '~')]),
    ("cntrl", [('\x00', '\x1f'), ('\x7f', '\x7f')]), ("graph", [('!', '~')]),
    ("print", [(' ', '~')])].lookup name

/-- The ranges of the class that is named behind an opening bracket, and what follows its closing
one. -/
def namedClass? (s : Text) : Option (List (Char × Char) × Text) :=
  match s with
  | ':' :: s =>
    match s.dropWhile Char.isAlpha with
    | ':' :: ']' :: rest =>
      (classRanges? (String.ofList (s.takeWhile Char.isAlpha))).map fun ranges => (ranges, rest)
    | _ => none
  | _ => none

/-- Reads a character of a set; a backslash protects it. -/
def setChar? : Text → Option (Char × Text)
  | '\\' :: c :: rest => some (c, rest)
  | ['\\'] | [] => none
  | c :: rest => some (c, rest)

/-- Reads the ranges of a set up to its closing bracket, which does not count as first. The number
of characters bounds the number of steps. -/
def readRanges : Nat → Bool → Text → Option (List (Char × Char) × Text)
  | 0, _, _ => none
  | n + 1, first, s =>
    let add (ranges : List (Char × Char)) (rest : Text) :=
      (readRanges n false rest).map fun p => (ranges ++ p.1, p.2)
    match s with
    | [] => none
    | c :: rest =>
      if c = ']' ∧ !first then some ([], rest)
      else
        match if c = '[' then namedClass? rest else none with
        | some (ranges, rest) => add ranges rest
        | none =>
          match setChar? s with
          | none => none
          | some (c, rest) =>
            match rest with
            | '-' :: after =>
              if after.head? = some ']' then add [(c, c)] rest
              else
                match setChar? after with
                | some (d, after) => add [(c, d)] after
                | none => none
            | _ => add [(c, c)] rest

/-- Reads a set behind its opening bracket. -/
def readSet (s : Text) : Option (PatternElement × Text) :=
  match s with
  | '!' :: rest => (readRanges (s.length + 1) true rest).map fun p => (.oneOf true p.1, p.2)
  | _ => (readRanges (s.length + 1) true s).map fun p => (.oneOf false p.1, p.2)

/-- The pattern with a given spelling. The number of characters bounds the number of steps. -/
def patternFrom : Nat → Text → List PatternElement
  | 0, _ => []
  | _, [] => []
  | n + 1, c :: rest =>
    match c with
    | '*' => .anyText :: patternFrom n rest
    | '?' => .anyChar :: patternFrom n rest
    | '[' =>
      match readSet rest with
      | some (set, rest) => set :: patternFrom n rest
      | none => .char c :: patternFrom n rest
    | '\\' =>
      match rest with
      | d :: rest => .char d :: patternFrom n rest
      | [] => [.char c]
    | _ => .char c :: patternFrom n rest

def toPattern (s : Text) : List PatternElement :=
  patternFrom (s.length + 1) s

/-! ## Fitting -/

/-- Whether something holds of a text or of an end of it. -/
def anyEnd (p : Text → Bool) : Text → Bool
  | [] => p []
  | c :: s => p (c :: s) || anyEnd p s

/-- Whether a text as a whole fits a pattern. -/
def fits : List PatternElement → Text → Bool
  | [], s => s.isEmpty
  | [.anyText], _ => true
  | .char c :: ps, d :: s => c == d && fits ps s
  | .anyChar :: ps, _ :: s => fits ps s
  | .oneOf inverted ranges :: ps, d :: s => (inRanges d ranges != inverted) && fits ps s
  | .anyText :: ps, s => anyEnd (fits ps) s
  | _, [] => false

end CueScript.Shell
