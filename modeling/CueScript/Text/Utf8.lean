/-!
# CueScript.Text.Utf8 — characters as bytes and bytes as characters

1. **Encoding**: `encode` writes each character as one to four bytes.
2. **Decoding**: a machine takes one byte at a time. It puts out a character when its last byte has
   come, and a mark for each maximal part that belongs to no character: a lead byte with the
   continuation bytes that fit it, or a single byte that starts nothing.
3. **Readings**: `decodeLossy` shows U+FFFD for each mark, `decode?` refuses texts with a mark.
-/

namespace CueScript.Text.Utf8

/-! ## Encoding -/

def encode (s : List Char) : List UInt8 :=
  s.flatMap String.utf8EncodeChar

/-! ## Decoding -/

/-- What the machine still waits for: nothing, or some continuation bytes of a character whose bits
so far are `bits`; the first of them must lie between `low` and `high`. -/
inductive Pending where
  | idle
  | awaiting (count bits low high : Nat)
deriving Repr, DecidableEq

/-- What the machine puts out: a character, or the mark of an invalid part. -/
abbrev Piece := Option Char

/-- Takes the first byte of a character. -/
def startByte (b : Nat) : List Piece × Pending :=
  if b < 0x80 then ([some (Char.ofNat b)], .idle)
  else if 0xC2 ≤ b ∧ b ≤ 0xDF then ([], .awaiting 1 (b - 0xC0) 0x80 0xBF)
  else if b = 0xE0 then ([], .awaiting 2 0 0xA0 0xBF)
  else if b = 0xED then ([], .awaiting 2 0xD 0x80 0x9F)
  else if 0xE1 ≤ b ∧ b ≤ 0xEF then ([], .awaiting 2 (b - 0xE0) 0x80 0xBF)
  else if b = 0xF0 then ([], .awaiting 3 0 0x90 0xBF)
  else if 0xF1 ≤ b ∧ b ≤ 0xF3 then ([], .awaiting 3 (b - 0xF0) 0x80 0xBF)
  else if b = 0xF4 then ([], .awaiting 3 4 0x80 0x8F)
  else ([none], .idle)

/-- Takes one byte. A byte that does not continue the pending character ends an invalid part and
may start a new character. -/
def stepByte (p : Pending) (b : Nat) : List Piece × Pending :=
  match p with
  | .idle => startByte b
  | .awaiting count bits low high =>
    if low ≤ b ∧ b ≤ high then
      let bits := bits * 64 + (b - 0x80)
      if count ≤ 1 then ([some (Char.ofNat bits)], .idle)
      else ([], .awaiting (count - 1) bits 0x80 0xBF)
    else (none :: (startByte b).1, (startByte b).2)

/-- The characters and invalid parts of a sequence of bytes. -/
def pieces (p : Pending) : List UInt8 → List Piece
  | [] => if p = .idle then [] else [none]
  | b :: bs => (stepByte p b.toNat).1 ++ pieces (stepByte p b.toNat).2 bs

/-! ## Readings -/

/-- The text of a sequence of bytes, with U+FFFD for each invalid part. -/
def decodeLossy (bytes : List UInt8) : List Char :=
  (pieces .idle bytes).map fun p => p.getD '\uFFFD'

/-- The text of a sequence of bytes; `none` when it has an invalid part. -/
def decode? (bytes : List UInt8) : Option (List Char) :=
  (pieces .idle bytes).mapM id

end CueScript.Text.Utf8
