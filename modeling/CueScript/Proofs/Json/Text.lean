import Mathlib.Data.List.Basic
import CueScript.Json.Text

/-!
# CueScript.Proofs.Json.Text — string literals are read back as they are written

1. **Code units**: four hexadecimal digits give the number that they were written for.
2. **Units**: what is written for one unit is read as that unit, whatever follows.
3. **Literals**: a written string is read up to its closing quote, and different texts have
   different units.
-/

namespace CueScript.Json

/-! ## Code units -/

theorem hexValue?_hexDigit {n : Nat} (hn : n < 16) : hexValue? (hexDigit n) = some n := by
  have hall : ∀ n < 16, hexValue? (hexDigit n) = some n := by decide
  exact hall n hn

/-- Four digits are enough for a code unit. -/
theorem hexNumber?_digits {n : Nat} (hn : n < 0x10000) :
    hexNumber? [hexDigit (n / 0x1000 % 16), hexDigit (n / 0x100 % 16), hexDigit (n / 0x10 % 16),
      hexDigit (n % 16)] = some n := by
  have hdigit : ∀ m, hexValue? (hexDigit (m % 16)) = some (m % 16) := by
    intro m
    exact hexValue?_hexDigit (Nat.mod_lt m (by decide))
  simp only [hexNumber?, List.foldlM_cons, List.foldlM_nil, hdigit, Option.map_some,
    Option.bind_eq_bind, Option.bind_some, Option.pure_def, Option.some.injEq]
  omega

theorem unitOfCode_char {c : Char} (hc : c.toNat < 0x20) : unitOfCode c.toNat = .char c := by
  have hplain : ¬ (0xD800 ≤ c.toNat ∧ c.toNat < 0xE000) := by omega
  rw [unitOfCode, dif_neg hplain, Char.ofNat_toNat]

theorem unitOfCode_surrogate (offset : Fin 2048) :
    unitOfCode (0xD800 + offset.val) = .surrogate offset := by
  have hrange : 0xD800 ≤ 0xD800 + offset.val ∧ 0xD800 + offset.val < 0xE000 := by omega
  rw [unitOfCode, dif_pos hrange, StringUnit.surrogate.injEq, Fin.ext_iff]
  exact Nat.add_sub_cancel_left 0xD800 offset.val

/-! ## Units -/

variable (rest : List Char)

theorem readBody?_hexEscape {n : Nat} (hn : n < 0x10000) :
    readBody? (hexEscape n ++ rest) = (readBody? rest).map (consUnit (unitOfCode n)) := by
  simp only [hexEscape, List.cons_append, List.nil_append]
  rw [readBody?, hexNumber?_digits hn]

/-- A character with a short escape. -/
theorem readBody?_shortEscape {e c : Char} (he : shortEscape? e = some c) :
    readBody? ('\\' :: e :: rest) = (readBody? rest).map (consUnit (.char c)) := by
  have hu : e ≠ 'u' := by
    rintro rfl
    simp [shortEscape?] at he
  rw [readBody?]
  · rw [he]
  · intro a b c' d rest' heq
    exact absurd heq hu

/-- A character that stands for itself. -/
theorem readBody?_plain {c : Char} (hquote : c ≠ '"') (hslash : c ≠ '\\') (hc : ¬ c.toNat < 0x20) :
    readBody? (c :: rest) = (readBody? rest).map (consUnit (.char c)) := by
  have hplain : ¬ (c.toNat < 0x20 ∨ c = '\\') := by
    rintro (h | h)
    · exact hc h
    · exact hslash h
  rw [readBody?]
  · rw [if_neg hplain]
  · intro heq
    exact absurd heq hquote
  · intro a b c' d rest' heq
    exact absurd heq hslash
  · intro e rest' heq
    exact absurd heq hslash

/-- A written character is read back. -/
theorem readBody?_escapeChar (c : Char) :
    readBody? (escapeChar c ++ rest) = (readBody? rest).map (consUnit (.char c)) := by
  unfold escapeChar
  split
  · exact readBody?_shortEscape rest (by decide)
  · exact readBody?_shortEscape rest (by decide)
  · exact readBody?_shortEscape rest (by decide)
  · exact readBody?_shortEscape rest (by decide)
  · exact readBody?_shortEscape rest (by decide)
  · exact readBody?_shortEscape rest (by decide)
  · exact readBody?_shortEscape rest (by decide)
  · next _ hquote hslash _ _ _ _ _ =>
    by_cases hc : c.toNat < 0x20
    · rw [if_pos hc, readBody?_hexEscape rest (by omega), unitOfCode_char hc]
    · rw [if_neg hc]
      exact readBody?_plain rest hquote hslash hc

/-- A written unit is read back. -/
theorem readBody?_escape (u : StringUnit) :
    readBody? (u.escape ++ rest) = (readBody? rest).map (consUnit u) := by
  cases u with
  | char c => exact readBody?_escapeChar rest c
  | surrogate offset =>
      rw [StringUnit.escape, readBody?_hexEscape rest (by omega), unitOfCode_surrogate]

/-! ## Literals -/

/-- A written string is read back up to its closing quote. -/
theorem readBody?_units (us : List StringUnit) :
    readBody? (us.flatMap StringUnit.escape ++ '"' :: rest) = some (us, rest) := by
  induction us with
  | nil => simp [readBody?]
  | cons u us ih =>
      rw [List.flatMap_cons, List.append_assoc, readBody?_escape, ih]
      rfl

/-- The units of a text tell it from all others. -/
theorem unitsOf_injective : Function.Injective unitsOf := by
  intro s t h
  have hread : text? (unitsOf t) = some s := by rw [← h, text?_unitsOf]
  rw [text?_unitsOf] at hread
  exact (Option.some.inj hread).symm

end CueScript.Json
