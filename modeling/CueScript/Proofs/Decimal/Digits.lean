import Mathlib.Data.List.Basic
import CueScript.Decimal.Digits

/-!
# CueScript.Proofs.Decimal.Digits — digits are read back as they are written

1. **Runs**: the reader takes a run of written digits whole when no digit follows it.
2. **Numbers**: a written number is a run of digits that denotes it; only zero starts with a 0.
-/

namespace CueScript.Decimal

/-! ## Runs -/

/-- No digit stands in front. -/
def NoDigit (s : List Char) : Prop :=
  ∀ c ∈ s.head?, digit? c = none

@[simp] theorem noDigit_cons {c : Char} {s : List Char} : NoDigit (c :: s) ↔ digit? c = none := by
  simp [NoDigit]

theorem toNat_digitChar (d : Fin 10) : (digitChar d).toNat = 48 + d.val := by
  have hall : ∀ d : Fin 10, (digitChar d).toNat = 48 + d.val := by decide
  exact hall d

@[simp] theorem digit?_digitChar (d : Fin 10) : digit? (digitChar d) = some d := by
  have hall : ∀ d : Fin 10, digit? (digitChar d) = some d := by decide
  exact hall d

/-- A character that the library counts as a digit is written for one. -/
theorem exists_digitChar {c : Char} (h : c.isDigit = true) : ∃ d, c = digitChar d := by
  simp only [Char.isDigit, Bool.and_eq_true, decide_eq_true_eq, UInt32.le_iff_toNat_le] at h
  have hlow : 48 ≤ c.toNat := h.1
  have hhigh : c.toNat ≤ 57 := h.2
  refine ⟨⟨c.toNat - 48, by omega⟩, ?_⟩
  rw [digitChar, Nat.add_sub_cancel' hlow, Char.ofNat_toNat]

theorem exists_map_digitChar {cs : List Char} (h : ∀ c ∈ cs, c.isDigit = true) :
    ∃ ds : List (Fin 10), cs = ds.map digitChar := by
  induction cs with
  | nil => exact ⟨[], rfl⟩
  | cons c cs ih =>
      rcases exists_digitChar (h c (by simp)) with ⟨d, rfl⟩
      rcases ih (fun x hx => h x (by simp [hx])) with ⟨ds, rfl⟩
      exact ⟨d :: ds, rfl⟩

/-- A run of digits ends where no digit follows. -/
theorem splitDigits_run (ds : List (Fin 10)) {r : List Char} (hr : NoDigit r) :
    splitDigits (ds.map digitChar ++ r) = (ds, r) := by
  induction ds with
  | nil =>
      cases r with
      | nil => rfl
      | cons c r =>
          have hc : digit? c = none := noDigit_cons.1 hr
          simp [splitDigits, hc]
  | cons d ds ih => simp [splitDigits, ih]

/-! ## Numbers -/

/-- The two ways of counting up digits. -/
theorem ofDigitChars_map (ds : List (Fin 10)) (n : Nat) :
    Nat.ofDigitChars 10 (ds.map digitChar) n = ds.foldl (fun n d => 10 * n + d.val) n := by
  induction ds generalizing n with
  | nil => rfl
  | cons d ds ih =>
      have hd : (digitChar d).toNat - '0'.toNat = d.val := by
        rw [toNat_digitChar]
        exact Nat.add_sub_cancel_left 48 d.val
      rw [List.map_cons, Nat.ofDigitChars_cons, hd, ih]
      rfl

/-- A written number is a run of digits that denotes it. -/
theorem exists_digits (n : Nat) :
    ∃ ds : List (Fin 10), digitsOf n = ds.map digitChar ∧ valueOf ds = n ∧ ds ≠ [] := by
  have hdigit : ∀ c ∈ digitsOf n, c.isDigit = true := by
    intro c hc
    exact Nat.isDigit_of_mem_toDigits (by decide) (by decide) hc
  rcases exists_map_digitChar hdigit with ⟨ds, hds⟩
  refine ⟨ds, hds, ?_, ?_⟩
  · rw [valueOf, ← ofDigitChars_map, ← hds]
    exact Nat.ofDigitChars_toDigits (by decide) (by decide)
  · rintro rfl
    have hlength : 0 < (digitsOf n).length := Nat.length_toDigits_pos
    rw [hds] at hlength
    exact absurd hlength (by simp)

/-- Only zero is written with a 0 in front. -/
theorem head?_digitsOf {n : Nat} (hn : n ≠ 0) : (digitsOf n).head? ≠ some '0' := by
  induction n using Nat.strongRecOn with
  | ind n ih =>
      rw [digitsOf, Nat.toDigits_eq_if (by decide)]
      by_cases hlt : n < 10
      · rw [if_pos hlt]
        have hall : ∀ m < 10, m ≠ 0 → [m.digitChar].head? ≠ some '0' := by decide
        exact hall n hlt hn
      · -- the first digit is that of the quotient, which is not zero either
        have hdiv := ih (n / 10) (by omega) (by omega)
        rw [if_neg hlt, List.head?_append]
        cases hhead : (Nat.toDigits 10 (n / 10)).head? with
        | none =>
            rw [List.head?_eq_none_iff] at hhead
            have hlength : 0 < (Nat.toDigits 10 (n / 10)).length := Nat.length_toDigits_pos
            rw [hhead] at hlength
            exact absurd hlength (by simp)
        | some c =>
            rw [digitsOf, hhead] at hdiv
            exact hdiv

end CueScript.Decimal
