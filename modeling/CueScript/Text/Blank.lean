/-!
# CueScript.Text.Blank — blank characters, trimming and words

"Blank" is the Unicode property White_Space: twenty-five code points in ten ranges.

1. **Class**: `blankRanges` is the table, `isBlank` the test.
2. **Trimming**: `trimStart`, `trimEnd` and `trim` drop blanks at the ends of a text.
3. **Words**: `words` lists the maximal runs of non-blank characters.
-/

namespace CueScript.Text

/-! ## The class -/

/-- The code points with the property White_Space, as inclusive ranges in increasing order. -/
def blankRanges : List (Nat × Nat) :=
  [(0x0009, 0x000D), (0x0020, 0x0020), (0x0085, 0x0085), (0x00A0, 0x00A0), (0x1680, 0x1680),
   (0x2000, 0x200A), (0x2028, 0x2029), (0x202F, 0x202F), (0x205F, 0x205F), (0x3000, 0x3000)]

/-- A character is blank when its code point lies in one of the ranges. -/
def isBlank (c : Char) : Bool :=
  blankRanges.any fun r => r.1 ≤ c.toNat && c.toNat ≤ r.2

/-! ## Trimming -/

/-- Drops the blanks in front. -/
def trimStart (s : List Char) : List Char :=
  s.dropWhile isBlank

/-- Drops the blanks at the end. -/
def trimEnd (s : List Char) : List Char :=
  (s.reverse.dropWhile isBlank).reverse

def trim (s : List Char) : List Char :=
  trimEnd (trimStart s)

/-! ## Words -/

/-- Puts a word in front of a list of words, unless it is empty. -/
def consWord (w : List Char) (ws : List (List Char)) : List (List Char) :=
  if w.isEmpty then ws else w :: ws

/-- The run of non-blank characters that a text starts with, and the words after that run. -/
def splitWord : List Char → List Char × List (List Char)
  | [] => ([], [])
  | c :: cs =>
    let (w, ws) := splitWord cs
    if isBlank c then ([], consWord w ws) else (c :: w, ws)

/-- The maximal runs of non-blank characters, in order. -/
def words (s : List Char) : List (List Char) :=
  consWord (splitWord s).1 (splitWord s).2

end CueScript.Text
