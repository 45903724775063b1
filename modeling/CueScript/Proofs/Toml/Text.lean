import Mathlib.Data.List.Forall2
import CueScript.Toml.Text
import CueScript.Proofs.Json.Text

/-!
# CueScript.Proofs.Toml.Text — basic strings are read back, however they are escaped

1. **Source**: a front part without forbidden characters reaches the reader as it is.
2. **Characters**: `CharSpelled` lists the ways to write a character inside a basic string; each is
   read as that character, whatever follows.
3. **Strings**: `StringSpelled` puts quotes around written characters. `quote` chooses one spelling
   of every text.
-/

namespace CueScript.Toml

/-! ## Source -/

/-- No character is forbidden. -/
def Clean (s : List Char) : Prop :=
  ∀ c ∈ s, isForbidden c = false

theorem isForbidden_of_range {c : Char} (hlow : 0x20 ≤ c.toNat) (hhigh : c.toNat < 0x7F) :
    isForbidden c = false := by
  simp only [isForbidden, Bool.or_eq_false_iff, Bool.and_eq_false_iff, decide_eq_false_iff_not,
    beq_eq_false_iff_ne]
  omega

theorem Clean.nil : Clean [] := by
  intro c hc
  cases hc

theorem Clean.cons {c : Char} {s : List Char} (hc : isForbidden c = false) (hs : Clean s) :
    Clean (c :: s) :=
  List.forall_mem_cons.2 ⟨hc, hs⟩

theorem Clean.append {s t : List Char} (hs : Clean s) (ht : Clean t) : Clean (s ++ t) :=
  List.forall_mem_append.2 ⟨hs, ht⟩

/-- Only line ends behind a clean front part are changed. -/
theorem unixLines?_append {s : List Char} (hs : Clean s) (rest : List Char) :
    unixLines? (s ++ rest) = (unixLines? rest).map (s ++ ·) := by
  induction s with
  | nil => simp
  | cons c s ih =>
    obtain ⟨hc, hs⟩ := List.forall_mem_cons.1 hs
    rw [List.cons_append, unixLines?, if_neg (by simp [hc]), ih hs, Option.map_map]
    · rfl
    · -- a carriage return is forbidden
      rintro _ rfl -
      exact absurd hc (by decide)

theorem sourceLines?_append {s rest : List Char} (hs : Clean s)
    (hmark : (s ++ rest).head? ≠ some '\uFEFF') :
    sourceLines? (s ++ rest) = (unixLines? rest).map (s ++ ·) := by
  rw [sourceLines?, unixLines?_append hs]
  intro tail htail
  exact hmark (by rw [htail, List.head?_cons])

/-! ## Characters -/

theorem scalar?_toNat (c : Char) : scalar? c.toNat = some c := by
  have hvalid : c.toNat.isValidChar := c.valid
  rw [scalar?, if_pos hvalid, Char.ofNat_toNat]

/-- The ways to write a character inside a basic string. -/
inductive CharSpelled : Char → List Char → Prop
  /-- As itself. -/
  | plain {c : Char} (hquote : c ≠ '"') (hslash : c ≠ '\\') (hline : c ≠ '\n')
      (hclean : isForbidden c = false) : CharSpelled c [c]
  /-- By its short escape. -/
  | short {c e : Char} (he : shortEscape? e = some c) : CharSpelled c ['\\', e]
  /-- By its number, in four digits. -/
  | code {c d₁ d₂ d₃ d₄ : Char} (hn : Json.hexNumber? [d₁, d₂, d₃, d₄] = some c.toNat) :
      CharSpelled c ['\\', 'u', d₁, d₂, d₃, d₄]
  /-- By its number, in eight digits. -/
  | longCode {c d₁ d₂ d₃ d₄ d₅ d₆ d₇ d₈ : Char}
      (hn : Json.hexNumber? [d₁, d₂, d₃, d₄, d₅, d₆, d₇, d₈] = some c.toNat) :
      CharSpelled c ['\\', 'U', d₁, d₂, d₃, d₄, d₅, d₆, d₇, d₈]

theorem isForbidden_of_hexValue? {d : Char} {n : Nat} (h : Json.hexValue? d = some n) :
    isForbidden d = false := by
  have hrange : 0x30 ≤ d.toNat ∧ d.toNat ≤ 0x66 := by
    unfold Json.hexValue? at h
    simp only [Char.le_def, UInt32.le_iff_toNat_le] at h
    split at h
    · next hd => exact ⟨hd.1, Nat.le_trans hd.2 (by decide)⟩
    · split at h
      · next hd => exact ⟨Nat.le_trans (by decide) hd.1, hd.2⟩
      · split at h
        · next hd => exact ⟨Nat.le_trans (by decide) hd.1, Nat.le_trans hd.2 (by decide)⟩
        · simp at h
  exact isForbidden_of_range (by omega) (by omega)

theorem clean_of_hexNumber? {ds : List Char} {n : Nat} (h : Json.hexNumber? ds = some n) :
    Clean ds := by
  unfold Json.hexNumber? at h
  generalize 0 = start at h
  induction ds generalizing start with
  | nil => exact Clean.nil
  | cons d ds ih =>
    rw [List.foldlM_cons] at h
    obtain ⟨next, hnext, hds⟩ := Option.bind_eq_some_iff.1 h
    obtain ⟨value, hvalue, -⟩ := Option.map_eq_some_iff.1 hnext
    exact Clean.cons (isForbidden_of_hexValue? hvalue) (ih next hds)

theorem isForbidden_of_shortEscape? {e c : Char} (h : shortEscape? e = some c) :
    isForbidden e = false := by
  unfold shortEscape? at h
  split at h
  case h_8 => simp at h
  all_goals decide

namespace CharSpelled

variable {c : Char} {w : List Char}

theorem clean (h : CharSpelled c w) : Clean w := by
  cases h with
  | plain _ _ _ hclean => exact Clean.cons hclean Clean.nil
  | short he =>
    exact Clean.cons (by decide) (Clean.cons (isForbidden_of_shortEscape? he) Clean.nil)
  | code hn => exact Clean.cons (by decide) (Clean.cons (by decide) (clean_of_hexNumber? hn))
  | longCode hn => exact Clean.cons (by decide) (Clean.cons (by decide) (clean_of_hexNumber? hn))

/-- No spelling starts with the quote that ends a string. -/
theorem exists_cons (h : CharSpelled c w) : ∃ a v, w = a :: v ∧ a ≠ '"' := by
  cases h with
  | plain hquote => exact ⟨c, [], rfl, hquote⟩
  | short => exact ⟨'\\', _, rfl, by decide⟩
  | code => exact ⟨'\\', _, rfl, by decide⟩
  | longCode => exact ⟨'\\', _, rfl, by decide⟩

end CharSpelled

theorem readBasic?_escape {s after : List Char} {c : Char} (h : readEscape? s = some (c, after)) :
    readBasic? ('\\' :: s) = (readBasic? after).map (consChar c) := by
  rw [readBasic?]
  split
  · next hread =>
    rw [h] at hread
    cases hread
    rfl
  · next hread =>
    rw [h] at hread
    cases hread

/-- A spelled character is read back. -/
theorem readBasic?_charSpelled {c : Char} {w : List Char} (h : CharSpelled c w)
    (rest : List Char) : readBasic? (w ++ rest) = (readBasic? rest).map (consChar c) := by
  cases h with
  | plain hquote hslash hline _ =>
    rw [List.singleton_append, readBasic?]
    · exact hquote
    · exact hline
    · exact hslash
  | short he =>
    refine readBasic?_escape ?_
    rw [List.append_eq, List.singleton_append, readEscape?, he, Option.map_some]
    · rintro _ _ _ _ _ rfl
      simp [shortEscape?] at he
    · rintro _ _ _ _ _ _ _ _ _ rfl
      simp [shortEscape?] at he
  | code hn =>
    refine readBasic?_escape ?_
    simp only [List.append_eq, List.cons_append, List.nil_append, readEscape?, hn,
      Option.bind_some, scalar?_toNat, Option.map_some]
  | longCode hn =>
    refine readBasic?_escape ?_
    simp only [List.append_eq, List.cons_append, List.nil_append, readEscape?, hn,
      Option.bind_some, scalar?_toNat, Option.map_some]

/-- What is written for a character spells it. -/
theorem charSpelled_escapeChar (c : Char) : CharSpelled c (escapeChar c) := by
  unfold escapeChar
  split
  case h_8 hquote hslash _ _ hline _ _ =>
    by_cases hc : isForbidden c = true
    · rw [if_pos hc]
      have hsmall : c.toNat < 0x10000 := by
        simp only [isForbidden, Bool.or_eq_true, Bool.and_eq_true, decide_eq_true_eq,
          beq_iff_eq] at hc
        omega
      exact .code (Json.hexNumber?_digits hsmall)
    · rw [if_neg hc]
      exact .plain hquote hslash hline (Bool.not_eq_true _ ▸ hc)
  all_goals exact .short (by decide)

/-! ## Strings -/

/-- A text as a basic string on one line. -/
def StringSpelled (s : String) (w : List Char) : Prop :=
  ∃ ws, List.Forall₂ CharSpelled s.toList ws ∧ w = '"' :: (ws.flatten ++ ['"'])

theorem stringSpelled_quote (s : String) : StringSpelled s (quote s) := by
  refine ⟨s.toList.map escapeChar, ?_, rfl⟩
  rw [List.forall₂_map_right_iff]
  exact List.forall₂_same.2 fun c _ => charSpelled_escapeChar c

theorem clean_flatten {cs : List Char} {ws : List (List Char)}
    (h : List.Forall₂ CharSpelled cs ws) : Clean ws.flatten := by
  induction h with
  | nil => exact Clean.nil
  | cons hc _ ih => exact Clean.append hc.clean ih

theorem StringSpelled.clean {s : String} {w : List Char} (h : StringSpelled s w) : Clean w := by
  obtain ⟨ws, hws, rfl⟩ := h
  have hclose : Clean ['"'] := Clean.cons (by decide) Clean.nil
  exact Clean.cons (by decide) (Clean.append (clean_flatten hws) hclose)

/-- Spelled characters are read up to the closing quote. -/
theorem readBasic?_flatten {cs : List Char} {ws : List (List Char)}
    (h : List.Forall₂ CharSpelled cs ws) (rest : List Char) :
    readBasic? (ws.flatten ++ '"' :: rest) = some (cs, rest) := by
  induction h with
  | nil => simp [readBasic?]
  | cons hc _ ih =>
    rw [List.flatten_cons, List.append_assoc, readBasic?_charSpelled hc, ih]
    rfl

/-- A string that is not empty does not open with two quotes. -/
theorem flatten_head?_ne {cs : List Char} {ws : List (List Char)}
    (h : List.Forall₂ CharSpelled cs ws) : ws.flatten.head? ≠ some '"' := by
  cases h with
  | nil => simp
  | cons hc _ =>
    obtain ⟨a, v, rfl, ha⟩ := hc.exists_cons
    simpa using ha

end CueScript.Toml
