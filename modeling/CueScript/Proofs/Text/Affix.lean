import Mathlib.Data.List.Basic
import CueScript.Text.Affix

/-!
# CueScript.Proofs.Text.Affix — what comes off the ends of a text, and where it is cut

1. **Ends**: what taking one character off an end does.
2. **Layers**: `peel` takes a text out of the one layer that is around it. A layer is missing at an
   end only when no character of its class stands there.
3. **Cuts**: a text is cut at its first separator.
-/

namespace CueScript.Text

/-! ## Ends -/

section Ends

variable {p : Char → Bool} {c : Char} {s : List Char}

@[simp] theorem dropFirstIf_cons : dropFirstIf p (c :: s) = if p c then s else c :: s := rfl

/-- The last character is judged alone. -/
@[simp] theorem dropLastIf_append_singleton :
    dropLastIf p (s ++ [c]) = if p c then s else s ++ [c] := by
  by_cases hc : p c = true
  · simp [dropLastIf, hc]
  · simp [dropLastIf, hc]

/-- A first character that may stay is never taken off at the end. -/
theorem dropLastIf_cons (hc : p c = false) : dropLastIf p (c :: s) = c :: dropLastIf p s := by
  rcases List.eq_nil_or_concat' s with rfl | ⟨r, d, rfl⟩
  · -- the first character is the last one too
    simp [dropLastIf, dropFirstIf, hc]
  · rw [← List.cons_append, dropLastIf_append_singleton, dropLastIf_append_singleton]
    by_cases hd : p d = true
    · simp [hd]
    · simp [hd]

end Ends

/-! ## Layers -/

/-- What a class of characters may put at one end of a text: nothing, or one of them. -/
def Layer (p : Char → Bool) (w : List Char) : Prop :=
  w = [] ∨ ∃ c, p c = true ∧ w = [c]

section Layers

variable {p q : Char → Bool} {s t w : List Char}

@[simp] theorem layer_nil : Layer p [] := .inl rfl

@[simp] theorem layer_reverse : Layer p w.reverse ↔ Layer p w := by
  simp [Layer, List.reverse_eq_iff]

/-- A character that comes off is the layer; without one, no character of the class is in front. -/
theorem dropFirstIf_eq_iff :
    dropFirstIf p s = t ↔
      ∃ w, Layer p w ∧ s = w ++ t ∧ (w = [] → ∀ c ∈ t.head?, p c = false) := by
  constructor
  · rintro rfl
    cases s with
    | nil => exact ⟨[], layer_nil, rfl, by simp [dropFirstIf]⟩
    | cons c s =>
        cases hc : p c with
        | true => exact ⟨[c], .inr ⟨c, hc, rfl⟩, by simp [hc], by simp⟩
        | false => exact ⟨[], layer_nil, by simp [hc], by simp [hc]⟩
  · rintro ⟨w, hw, rfl, hfront⟩
    rcases hw with rfl | ⟨c, hc, rfl⟩
    · cases t with
      | nil => rfl
      | cons c t =>
          have hc : p c = false := hfront rfl c rfl
          simp [hc]
    · simp [hc]

/-- The same at the end. -/
theorem dropLastIf_eq_iff :
    dropLastIf p s = t ↔
      ∃ w, Layer p w ∧ s = t ++ w ∧ (w = [] → ∀ c ∈ t.getLast?, p c = false) := by
  rw [dropLastIf, List.reverse_eq_iff, dropFirstIf_eq_iff]
  constructor
  · rintro ⟨w, hw, hs, hend⟩
    refine ⟨w.reverse, layer_reverse.2 hw, ?_, ?_⟩
    · rw [List.reverse_eq_iff.1 hs, List.reverse_append, List.reverse_reverse]
    · simpa using hend
  · rintro ⟨w, hw, rfl, hend⟩
    refine ⟨w.reverse, layer_reverse.2 hw, by simp, ?_⟩
    simpa using hend

/-- At most one character comes off the end. -/
theorem exists_dropLastIf (p : Char → Bool) (s : List Char) :
    ∃ w, s = dropLastIf p s ++ w ∧ Layer p w := by
  rcases dropLastIf_eq_iff.1 (rfl : dropLastIf p s = dropLastIf p s) with ⟨w, hw, hs, -⟩
  exact ⟨w, hs, hw⟩

/-- Nothing is left of one character that comes off, or of nothing. -/
theorem dropLastIf_eq_nil_iff : dropLastIf p s = [] ↔ Layer p s := by
  rw [dropLastIf_eq_iff]
  simp

/-- `peel` leaves what stands between two layers, where both are as thick as they can be. -/
theorem peel_eq_iff :
    peel p q s = t ↔ ∃ v w, Layer p v ∧ Layer q w ∧ s = v ++ t ++ w ∧
      (v = [] → ∀ c ∈ (t ++ w).head?, p c = false) ∧
      (w = [] → ∀ c ∈ t.getLast?, q c = false) := by
  rw [peel, dropLastIf_eq_iff]
  constructor
  · rintro ⟨w, hw, hinner, hend⟩
    rcases dropFirstIf_eq_iff.1 hinner with ⟨v, hv, hs, hfront⟩
    exact ⟨v, w, hv, hw, by rw [hs, List.append_assoc], hfront, hend⟩
  · rintro ⟨v, w, hv, hw, hs, hfront, hend⟩
    refine ⟨w, hw, dropFirstIf_eq_iff.2 ⟨v, hv, ?_, hfront⟩, hend⟩
    rw [hs, List.append_assoc]

end Layers

/-! ## Cuts -/

section Cuts

variable {sep : Char} {s l r : List Char}

theorem cutAt?_of_not_mem (h : sep ∉ s) : cutAt? sep s = none := by
  induction s with
  | nil => rfl
  | cons c s ih =>
      rw [List.mem_cons, not_or] at h
      rw [cutAt?, if_neg (Ne.symm h.1), ih h.2]
      rfl

/-- The first separator counts. -/
theorem cutAt?_append (h : sep ∉ l) : cutAt? sep (l ++ sep :: r) = some (l, r) := by
  induction l with
  | nil => simp [cutAt?]
  | cons c l ih =>
      rw [List.mem_cons, not_or] at h
      rw [List.cons_append, cutAt?, if_neg (Ne.symm h.1), ih h.2]
      rfl

end Cuts

end CueScript.Text
