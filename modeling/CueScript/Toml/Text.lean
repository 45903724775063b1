import CueScript.Json.Text

/-!
# CueScript.Toml.Text — the strings of a TOML document

1. **Source**: `sourceLines?` drops a byte order mark, turns every line end into a line feed, and
   refuses the control characters that no part of a document may hold.
2. **Strings**: basic strings know escapes, literal strings do not; each may stand on one line or,
   with three quotes, on several. A line feed right behind three quotes does not count, and up to
   two quotes may stand right before the closing three.
3. **Writing**: `quote` writes any text as a basic string on one line.
-/

namespace CueScript.Toml

/-! ## Source -/

/-- Control characters other than tab and line feed have no place in a document. -/
def isForbidden (c : Char) : Bool :=
  (c.toNat < 0x20 && c != '\t' && c != '\n') || c.toNat == 0x7F

/-- Replaces each carriage return and line feed by a line feed; refuses forbidden characters, and so
every other carriage return. -/
def unixLines? : List Char → Option (List Char)
  | [] => some []
  | '\r' :: '\n' :: rest => (unixLines? rest).map ('\n' :: ·)
  | c :: rest => if isForbidden c then none else (unixLines? rest).map (c :: ·)

/-- The characters of a document as its reader sees them. -/
def sourceLines? : List Char → Option (List Char)
  | '\uFEFF' :: rest => unixLines? rest
  | s => unixLines? s

/-! ## Strings -/

/-- The character that a backslash and one more character stand for. -/
def shortEscape? : Char → Option Char
  | 'b' => some '\x08'
  | 't' => some '\t'
  | 'n' => some '\n'
  | 'f' => some '\x0c'
  | 'r' => some '\r'
  | '"' => some '"'
  | '\\' => some '\\'
  | _ => none

/-- The character with a given number; surrogates and numbers past the last plane have none. -/
def scalar? (n : Nat) : Option Char :=
  if n.isValidChar then some (Char.ofNat n) else none

/-- Reads an escape behind its backslash: one character, `u` and four hexadecimal digits, or `U` and
eight. -/
def readEscape? : List Char → Option (Char × List Char)
  | 'u' :: a :: b :: c :: d :: rest =>
    ((Json.hexNumber? [a, b, c, d]).bind scalar?).map (·, rest)
  | 'U' :: a :: b :: c :: d :: e :: f :: g :: h :: rest =>
    ((Json.hexNumber? [a, b, c, d, e, f, g, h]).bind scalar?).map (·, rest)
  | c :: rest => (shortEscape? c).map (·, rest)
  | [] => none

theorem readEscape?_length {s r : List Char} {c : Char} (h : readEscape? s = some (c, r)) :
    r.length < s.length := by
  unfold readEscape? at h
  split at h
  · obtain ⟨_, _, he⟩ := Option.map_eq_some_iff.1 h
    simp only [Prod.mk.injEq] at he
    simp only [← he.2, List.length_cons]
    omega
  · obtain ⟨_, _, he⟩ := Option.map_eq_some_iff.1 h
    simp only [Prod.mk.injEq] at he
    simp only [← he.2, List.length_cons]
    omega
  · obtain ⟨_, _, he⟩ := Option.map_eq_some_iff.1 h
    simp only [Prod.mk.injEq] at he
    simp only [← he.2, List.length_cons]
    omega
  · simp at h

def consChar (c : Char) (p : List Char × List Char) : List Char × List Char :=
  (c :: p.1, p.2)

/-- Reads a basic string behind its opening quote. -/
def readBasic? (s : List Char) : Option (List Char × List Char) :=
  match s with
  | [] => none
  | '"' :: rest => some ([], rest)
  | '\n' :: _ => none
  | '\\' :: rest =>
    match h : readEscape? rest with
    | some (c, after) =>
      have := readEscape?_length h
      (readBasic? after).map (consChar c)
    | none => none
  | c :: rest => (readBasic? rest).map (consChar c)
termination_by s.length

/-- Reads a literal string behind its opening quote. -/
def readLiteral? : List Char → Option (List Char × List Char)
  | [] => none
  | '\'' :: rest => some ([], rest)
  | '\n' :: _ => none
  | c :: rest => (readLiteral? rest).map (consChar c)

def dropLineFeed : List Char → List Char
  | '\n' :: rest => rest
  | s => s

/-- Blanks that a string on several lines may drop. -/
def isFill (c : Char) : Bool :=
  c == ' ' || c == '\t' || c == '\n'

/-- What follows a backslash at the end of a line, without the blanks and empty lines in between;
`none` when the backslash is not the last thing on its line. -/
def afterLineEnd? (s : List Char) : Option (List Char) :=
  match s.dropWhile fun c => c == ' ' || c == '\t' with
  | '\n' :: rest => some (rest.dropWhile isFill)
  | _ => none

theorem dropWhile_length_le (p : Char → Bool) (s : List Char) :
    (s.dropWhile p).length ≤ s.length :=
  (List.dropWhile_suffix p).length_le

theorem afterLineEnd?_length {s r : List Char} (h : afterLineEnd? s = some r) :
    r.length < s.length := by
  unfold afterLineEnd? at h
  split at h
  · next rest hd =>
    have h₁ := dropWhile_length_le (fun c => c == ' ' || c == '\t') s
    have h₂ := dropWhile_length_le isFill rest
    simp only [Option.some.injEq] at h
    rw [hd, List.length_cons] at h₁
    rw [← h]
    omega
  · simp at h

/-- Reads a basic string on several lines behind its opening quotes. -/
def readBasicLines? (s : List Char) : Option (List Char × List Char) :=
  match s with
  | [] => none
  | '"' :: '"' :: '"' :: '"' :: '"' :: rest => some (['"', '"'], rest)
  | '"' :: '"' :: '"' :: '"' :: rest => some (['"'], rest)
  | '"' :: '"' :: '"' :: rest => some ([], rest)
  | '\\' :: rest =>
    match h : afterLineEnd? rest with
    | some after =>
      have := afterLineEnd?_length h
      readBasicLines? after
    | none =>
      match h : readEscape? rest with
      | some (c, after) =>
        have := readEscape?_length h
        (readBasicLines? after).map (consChar c)
      | none => none
  | c :: rest => (readBasicLines? rest).map (consChar c)
termination_by s.length

/-- Reads a literal string on several lines behind its opening quotes. -/
def readLiteralLines? : List Char → Option (List Char × List Char)
  | [] => none
  | '\'' :: '\'' :: '\'' :: '\'' :: '\'' :: rest => some (['\'', '\''], rest)
  | '\'' :: '\'' :: '\'' :: '\'' :: rest => some (['\''], rest)
  | '\'' :: '\'' :: '\'' :: rest => some ([], rest)
  | c :: rest => (readLiteralLines? rest).map (consChar c)

/-! ## Writing -/

def escapeChar (c : Char) : List Char :=
  match c with
  | '"' => ['\\', '"']
  | '\\' => ['\\', '\\']
  | '\x08' => ['\\', 'b']
  | '\x0c' => ['\\', 'f']
  | '\n' => ['\\', 'n']
  | '\r' => ['\\', 'r']
  | '\t' => ['\\', 't']
  | c => if isForbidden c then Json.hexEscape c.toNat else [c]

/-- A text as a basic string on one line. -/
def quote (s : String) : List Char :=
  '"' :: (s.toList.flatMap escapeChar ++ ['"'])

end CueScript.Toml
