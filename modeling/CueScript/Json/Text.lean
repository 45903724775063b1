/-!
# CueScript.Json.Text — the strings of a JSON document

1. **Units**: a string is a sequence of characters and of escapes that name a surrogate code unit.
   `chars?` joins the surrogates to characters and refuses those that stand alone.
2. **Writing**: `quote` escapes the quote, the backslash and the control characters below U+0020;
   all other characters stand for themselves.
3. **Reading**: `readBody?` reads up to the closing quote and accepts every escape of the format.
-/

namespace CueScript.Json

/-! ## Units -/

/-- One element of a string as it is written. -/
inductive StringUnit where
  /-- A character, written as itself or escaped. -/
  | char (c : Char)
  /-- The escape of the code unit 0xD800 + `offset`, half of a character outside the BMP. -/
  | surrogate (offset : Fin 2048)
deriving Repr, DecidableEq

def unitsOf (s : String) : List StringUnit :=
  s.toList.map .char

/-- The character that a leading and a trailing surrogate stand for. -/
def joinSurrogates (lead trail : Fin 2048) : Char :=
  Char.ofNat (0x10000 + lead.val * 0x400 + (trail.val - 0x400))

/-- The characters of a string; `none` when a surrogate does not belong to a pair. -/
def chars? : List StringUnit → Option (List Char)
  | [] => some []
  | .char c :: us => (chars? us).map (c :: ·)
  | .surrogate lead :: .surrogate trail :: us =>
    if lead.val < 0x400 ∧ 0x400 ≤ trail.val then
      (chars? us).map (joinSurrogates lead trail :: ·)
    else none
  | .surrogate _ :: _ => none

/-- The text of a string; `none` when a surrogate does not belong to a pair. -/
def text? (us : List StringUnit) : Option String :=
  (chars? us).map String.ofList

theorem chars?_map_char (cs : List Char) : chars? (cs.map .char) = some cs := by
  induction cs with
  | nil => rfl
  | cons c cs ih => simp [chars?, ih]

@[simp] theorem text?_unitsOf (s : String) : text? (unitsOf s) = some s := by
  simp [text?, unitsOf, chars?_map_char]

/-! ## Hexadecimal digits -/

/-- The lower-case hexadecimal digit of a number below sixteen. -/
def hexDigit (n : Nat) : Char :=
  if n < 10 then Char.ofNat (0x30 + n) else Char.ofNat (0x57 + n)

/-- The value of a hexadecimal digit of either case. -/
def hexValue? (c : Char) : Option Nat :=
  if '0' ≤ c ∧ c ≤ '9' then some (c.toNat - 0x30)
  else if 'a' ≤ c ∧ c ≤ 'f' then some (c.toNat - 0x57)
  else if 'A' ≤ c ∧ c ≤ 'F' then some (c.toNat - 0x37)
  else none

def hexNumber? (cs : List Char) : Option Nat :=
  cs.foldlM (fun n c => (hexValue? c).map (16 * n + ·)) 0

/-- A code unit as four hexadecimal digits behind `\u`. -/
def hexEscape (n : Nat) : List Char :=
  ['\\', 'u', hexDigit (n / 0x1000 % 16), hexDigit (n / 0x100 % 16), hexDigit (n / 0x10 % 16),
   hexDigit (n % 16)]

/-! ## Writing -/

def escapeChar (c : Char) : List Char :=
  match c with
  | '"' => ['\\', '"']
  | '\\' => ['\\', '\\']
  | '\x08' => ['\\', 'b']
  | '\x0c' => ['\\', 'f']
  | '\n' => ['\\', 'n']
  | '\r' => ['\\', 'r']
  | '\t' => ['\\', 't']
  | c => if c.toNat < 0x20 then hexEscape c.toNat else [c]

def StringUnit.escape : StringUnit → List Char
  | .char c => escapeChar c
  | .surrogate offset => hexEscape (0xD800 + offset.val)

/-- The string literal of a sequence of units. -/
def quote (us : List StringUnit) : List Char :=
  '"' :: (us.flatMap StringUnit.escape ++ ['"'])

/-! ## Reading -/

/-- The unit with a given code: a character, or a surrogate. -/
def unitOfCode (n : Nat) : StringUnit :=
  if h : 0xD800 ≤ n ∧ n < 0xE000 then .surrogate ⟨n - 0xD800, by omega⟩ else .char (Char.ofNat n)

/-- The character that a backslash and one more character stand for. -/
def shortEscape? : Char → Option Char
  | '"' => some '"'
  | '\\' => some '\\'
  | '/' => some '/'
  | 'b' => some '\x08'
  | 'f' => some '\x0c'
  | 'n' => some '\n'
  | 'r' => some '\r'
  | 't' => some '\t'
  | _ => none

def consUnit (u : StringUnit) (p : List StringUnit × List Char) : List StringUnit × List Char :=
  (u :: p.1, p.2)

/-- Reads a string behind its opening quote; returns the units and what follows the closing one.
Control characters below U+0020 must be escaped. -/
def readBody? : List Char → Option (List StringUnit × List Char)
  | [] => none
  | '"' :: rest => some ([], rest)
  | '\\' :: 'u' :: a :: b :: c :: d :: rest =>
    match hexNumber? [a, b, c, d] with
    | some n => (readBody? rest).map (consUnit (unitOfCode n))
    | none => none
  | '\\' :: e :: rest =>
    match shortEscape? e with
    | some c => (readBody? rest).map (consUnit (.char c))
    | none => none
  | c :: rest =>
    if c.toNat < 0x20 ∨ c = '\\' then none else (readBody? rest).map (consUnit (.char c))

/-- What follows a string is shorter than the string. -/
theorem readBody?_length {s : List Char} {us : List StringUnit} {r : List Char}
    (h : readBody? s = some (us, r)) : r.length < s.length := by
  fun_induction readBody? s generalizing us r with
  | case1 => simp at h
  | case2 => simp_all
  | case3 a b c d rest n _ ih =>
    obtain ⟨p, hp, he⟩ := Option.map_eq_some_iff.1 h
    have := ih hp
    simp only [consUnit, Prod.mk.injEq] at he
    simp only [List.length_cons, ← he.2]
    omega
  | case4 => simp at h
  | case5 e rest _ c _ ih =>
    obtain ⟨p, hp, he⟩ := Option.map_eq_some_iff.1 h
    have := ih hp
    simp only [consUnit, Prod.mk.injEq] at he
    simp only [List.length_cons, ← he.2]
    omega
  | case6 => simp at h
  | case7 => simp at h
  | case8 c rest _ _ _ _ ih =>
    obtain ⟨p, hp, he⟩ := Option.map_eq_some_iff.1 h
    have := ih hp
    simp only [consUnit, Prod.mk.injEq] at he
    simp only [List.length_cons, ← he.2]
    omega

end CueScript.Json
