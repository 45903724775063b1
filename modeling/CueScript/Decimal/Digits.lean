/-!
# CueScript.Decimal.Digits — decimal digits and their value

1. **Digits**: `digit?` reads one, `splitDigits` the run of digits that a text starts with.
2. **Value**: `valueOf` is the number that a run of digits denotes; `digitsOf` writes a number
   without leading zeros.
-/

namespace CueScript.Decimal

/-- The value of a decimal digit. -/
def digit? (c : Char) : Option (Fin 10) :=
  if h : 48 ≤ c.toNat ∧ c.toNat ≤ 57 then some ⟨c.toNat - 48, by omega⟩
  else none

def digitChar (d : Fin 10) : Char :=
  Char.ofNat (48 + d.val)

/-- The run of digits that a text starts with, and what follows it. -/
def splitDigits : List Char → List (Fin 10) × List Char
  | [] => ([], [])
  | c :: cs =>
    match digit? c with
    | some d => (d :: (splitDigits cs).1, (splitDigits cs).2)
    | none => ([], c :: cs)

theorem splitDigits_length (s : List Char) : (splitDigits s).2.length ≤ s.length := by
  induction s with
  | nil => simp [splitDigits]
  | cons c cs ih =>
    rw [splitDigits]
    split
    · exact Nat.le_succ_of_le ih
    · exact Nat.le_refl _

/-- The number that digits denote, most significant digit first. -/
def valueOf (ds : List (Fin 10)) : Nat :=
  ds.foldl (fun n d => 10 * n + d.val) 0

/-- The digits of a number, without leading zeros; zero has the one digit 0. -/
def digitsOf (n : Nat) : List Char :=
  Nat.toDigits 10 n

end CueScript.Decimal
