import CueScript.Json.Number
import CueScript.Proofs.Decimal.Digits

/-!
# CueScript.Proofs.Json.Number — number literals are read back as they are written

A literal is read whole when what follows does not go on with it. The parts are read one after the
other: each of them stops where the next one starts.
-/

namespace CueScript.Json.Number

open Decimal (digitChar digit? digitsOf NoDigit)

variable {r : List Char}

/-! ## Parts -/

theorem digitChar_ne {c : Char} (hc : digit? c = none) (d : Fin 10) : digitChar d ≠ c := by
  rintro rfl
  simp at hc

/-- A number starts with a digit. -/
theorem exists_digitsOf_cons (n : Nat) : ∃ d cs, digitsOf n = digitChar d :: cs := by
  rcases Decimal.exists_digits n with ⟨ds, hds, -, hne⟩
  cases ds with
  | nil => exact absurd rfl hne
  | cons d ds => exact ⟨d, ds.map digitChar, hds⟩

theorem readWhole?_digitsOf (n : Nat) (hr : NoDigit r) :
    readWhole? (digitsOf n ++ r) = some (n, r) := by
  by_cases hn : n = 0
  · subst hn
    rfl
  · -- no zero is in front, so the digits are split off as a run
    rcases Decimal.exists_digits n with ⟨ds, hds, hvalue, hne⟩
    have hhead := Decimal.head?_digitsOf hn
    have hsplit := Decimal.splitDigits_run ds hr
    rw [← hds] at hsplit
    unfold readWhole?
    split
    · next rest heq =>
      rcases exists_digitsOf_cons n with ⟨d, cs, hcons⟩
      rw [hcons, List.cons_append] at heq
      rw [hcons] at hhead
      exact absurd (congrArg some (List.cons.inj heq).1) hhead
    · rw [hsplit]
      cases ds with
      | nil => exact absurd rfl hne
      | cons d ds => simp [hvalue]

/-- The fraction with the point in front, as it is written. -/
def fractionText (ds : List (Fin 10)) : List Char :=
  if ds.isEmpty then [] else '.' :: ds.map digitChar

/-- The exponent with its mark in front, as it is written. -/
def exponentText : Option Int → List Char
  | none => []
  | some e => 'e' :: ((if e < 0 then ['-'] else []) ++ digitsOf e.natAbs)

theorem readFraction?_fractionText (ds : List (Fin 10)) (hr : NoDigit r)
    (hpoint : r.head? ≠ some '.') : readFraction? (fractionText ds ++ r) = some (ds, r) := by
  cases ds with
  | nil =>
      have htext : fractionText [] ++ r = r := rfl
      rw [htext]
      unfold readFraction?
      split
      · exact absurd rfl hpoint
      · rfl
  | cons d ds =>
      have htext : fractionText (d :: ds) ++ r = '.' :: ((d :: ds).map digitChar ++ r) := rfl
      rw [htext, readFraction?, Decimal.splitDigits_run (d :: ds) hr]

/-- A minus is taken for a sign, a digit is not. -/
theorem takeSign_digitsOf (negative : Bool) (n : Nat) :
    takeSign ((if negative then ['-'] else []) ++ digitsOf n ++ r)
      = (negative, digitsOf n ++ r) := by
  cases negative with
  | true => rfl
  | false =>
      rcases exists_digitsOf_cons n with ⟨d, cs, hcons⟩
      simp only [Bool.false_eq_true, if_false, List.nil_append, hcons, List.cons_append]
      unfold takeSign
      split
      · next heq => exact absurd (List.cons.inj heq).1 (digitChar_ne (by decide) d)
      · next heq => exact absurd (List.cons.inj heq).1 (digitChar_ne (by decide) d)
      · rfl

theorem readExponent?_exponentText (e : Option Int) (hr : NoDigit r)
    (hmark : r.head? ≠ some 'e' ∧ r.head? ≠ some 'E') :
    readExponent? (exponentText e ++ r) = some (e, r) := by
  cases e with
  | none =>
      cases r with
      | nil => rfl
      | cons c r =>
          have hc : ¬ (c = 'e' ∨ c = 'E') := by
            rintro (rfl | rfl)
            · exact hmark.1 rfl
            · exact hmark.2 rfl
          simp [exponentText, readExponent?, hc]
  | some e =>
      rcases Decimal.exists_digits e.natAbs with ⟨ds, hds, hvalue, hne⟩
      have hsign := takeSign_digitsOf (r := r) (decide (e < 0)) e.natAbs
      have hsplit := Decimal.splitDigits_run ds hr
      rw [← hds] at hsplit
      simp only [decide_eq_true_eq] at hsign
      simp only [exponentText, List.cons_append, readExponent?, true_or, if_true, hsign, hsplit]
      cases ds with
      | nil => exact absurd rfl hne
      | cons d ds =>
          -- the sign and the absolute value make up the exponent
          by_cases hneg : e < 0
          · simp only [hvalue, hneg, decide_true, if_true]
            simp only [Option.some.injEq, Prod.mk.injEq, and_true]
            omega
          · simp only [hvalue, hneg, decide_false, Bool.false_eq_true, if_false]
            simp only [Option.some.injEq, Prod.mk.injEq, and_true]
            omega

/-! ## Literals -/

/-- What follows does not go on with a number. -/
def Ends (r : List Char) : Prop :=
  ∀ c ∈ r.head?, digit? c = none ∧ c ≠ '.' ∧ c ≠ 'e' ∧ c ≠ 'E'

@[simp] theorem ends_nil : Ends [] := by
  simp [Ends]

@[simp] theorem ends_cons {c : Char} :
    Ends (c :: r) ↔ digit? c = none ∧ c ≠ '.' ∧ c ≠ 'e' ∧ c ≠ 'E' := by
  simp [Ends]

theorem Ends.noDigit (h : Ends r) : NoDigit r :=
  fun c hc => (h c hc).1

theorem write_eq (n : Number) :
    n.write = (if n.negative then ['-'] else []) ++ digitsOf n.whole ++ fractionText n.fraction
      ++ exponentText n.exponent := by
  rw [write, fractionText]
  cases n.exponent with
  | none => rfl
  | some e => simp [exponentText]

/-- A literal starts with a minus or a digit. -/
theorem exists_write_cons (n : Number) :
    ∃ c cs, n.write = c :: cs ∧ (c = '-' ∨ ∃ d, c = digitChar d) := by
  rcases exists_digitsOf_cons n.whole with ⟨d, cs, hcons⟩
  rw [write_eq]
  cases n.negative with
  | true => exact ⟨'-', _, rfl, .inl rfl⟩
  | false =>
      refine ⟨digitChar d, cs ++ fractionText n.fraction ++ exponentText n.exponent, ?_,
        .inr ⟨d, rfl⟩⟩
      simp [hcons]

/-- A minus in front is taken off, a digit is not. -/
theorem takeChar_digitsOf (negative : Bool) (n : Nat) :
    takeChar '-' ((if negative then ['-'] else []) ++ digitsOf n ++ r)
      = (negative, digitsOf n ++ r) := by
  cases negative with
  | true => rfl
  | false =>
      rcases exists_digitsOf_cons n with ⟨d, cs, hcons⟩
      have hd : digitChar d ≠ '-' := digitChar_ne (by decide) d
      simp [hcons, takeChar, hd]

/-- A literal is read back when nothing goes on with it. -/
theorem read?_write (n : Number) (hr : Ends r) : read? (n.write ++ r) = some (n, r) := by
  rcases n with ⟨negative, whole, fraction, exponent⟩
  have hmark : r.head? ≠ some 'e' ∧ r.head? ≠ some 'E' :=
    ⟨fun h => (hr 'e' h).2.2.1 rfl, fun h => (hr 'E' h).2.2.2 rfl⟩
  -- what follows the fraction: the mark of the exponent, or the rest of the text
  have hdigit : NoDigit (exponentText exponent ++ r) := by
    cases exponent with
    | none => exact hr.noDigit
    | some e => exact Decimal.noDigit_cons.2 (by decide)
  have hpoint : (exponentText exponent ++ r).head? ≠ some '.' := by
    cases exponent with
    | none => exact fun h => (hr '.' h).2.1 rfl
    | some e => simp [exponentText]
  -- what follows the whole part: the point of the fraction, or all that comes behind it
  have hdigit' : NoDigit (fractionText fraction ++ (exponentText exponent ++ r)) := by
    cases fraction with
    | nil => exact hdigit
    | cons d ds => exact Decimal.noDigit_cons.2 (by decide)
  have htext : write ⟨negative, whole, fraction, exponent⟩ ++ r
      = (if negative then ['-'] else []) ++ digitsOf whole
        ++ (fractionText fraction ++ (exponentText exponent ++ r)) := by
    rw [write_eq]
    simp
  rw [htext]
  simp only [read?, takeChar_digitsOf, readWhole?_digitsOf whole hdigit',
    readFraction?_fractionText fraction hdigit hpoint,
    readExponent?_exponentText exponent hr.noDigit hmark, Option.bind_eq_bind, Option.bind_some,
    Option.pure_def]

/-! ## Integers -/

/-- The literal of an integer denotes it. -/
@[simp] theorem int?_ofInt (i : Int) : (ofInt i).int? = some i := by
  -- a minus stands in front of numbers below zero only
  have hzero : ¬ (i < 0 ∧ i.natAbs = 0) := by omega
  rw [int?, ofInt]
  simp only [ne_eq, not_true_eq_false, false_or, decide_eq_true_eq, hzero, if_false,
    Option.some.injEq]
  by_cases hneg : i < 0
  · rw [if_pos hneg]
    omega
  · rw [if_neg hneg]
    omega

end CueScript.Json.Number
