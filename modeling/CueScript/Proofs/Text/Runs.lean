import Mathlib.Data.List.Basic
import Mathlib.Data.List.TakeWhile
import CueScript.Text.Blank

/-!
# CueScript.Proofs.Text.Runs — runs of characters and padding

1. **Runs**: where `takeWhile` and `dropWhile` stop, for any class of characters.
2. **Padding**: `Blanks` holds of a run of blanks, `Tight` of a text without blanks at its ends.
3. **Trimming**: `trim_eq_iff` says what `trim` returns: the one tight text that is left when a run
   of blanks is taken off each end.
-/

namespace CueScript.Text

/-! ## Runs -/

section Runs

variable {p : Char → Bool} {w s : List Char}

/-- A run ends where the first character outside the class stands. -/
theorem takeWhile_run (hw : ∀ c ∈ w, p c = true) (hs : ∀ c ∈ s.head?, p c = false) :
    (w ++ s).takeWhile p = w := by
  rw [List.takeWhile_append_of_pos hw]
  cases s with
  | nil => simp
  | cons c s =>
      have hc : p c = false := hs c rfl
      simp [hc]

/-- What is left behind a run starts outside the class. -/
theorem dropWhile_run (hw : ∀ c ∈ w, p c = true) (hs : ∀ c ∈ s.head?, p c = false) :
    (w ++ s).dropWhile p = s := by
  rw [List.dropWhile_append_of_pos hw]
  cases s with
  | nil => simp
  | cons c s =>
      have hc : p c = false := hs c rfl
      simp [hc]

/-- No character of the class stands in front of what `dropWhile` leaves. -/
theorem head?_dropWhile (p : Char → Bool) (s : List Char) :
    ∀ c ∈ (s.dropWhile p).head?, p c = false := by
  intro c hc
  have h := List.head?_dropWhile_not p s
  rw [Option.mem_def.1 hc] at h
  simpa using h

/-- A run that does not reach the end of a text ends in front of a character outside the class. -/
theorem exists_behind_run (h : (s.takeWhile p).length < s.length) :
    ∃ c r, p c = false ∧ s = s.takeWhile p ++ c :: r := by
  have hsplit := List.takeWhile_append_dropWhile (p := p) (l := s)
  cases hrest : s.dropWhile p with
  | nil =>
      rw [hrest, List.append_nil] at hsplit
      rw [hsplit] at h
      exact absurd h (Nat.lt_irrefl _)
  | cons c r =>
      rw [hrest] at hsplit
      exact ⟨c, r, head?_dropWhile p s c (by simp [hrest]), hsplit.symm⟩

end Runs

/-! ## Padding -/

/-- A run of blanks, possibly empty. -/
def Blanks (w : List Char) : Prop :=
  ∀ c ∈ w, isBlank c = true

/-- A run of blanks that holds at least one. -/
structure Gap (w : List Char) : Prop where
  blanks : Blanks w
  nonempty : w ≠ []

/-- No blank stands in front. -/
def TightStart (s : List Char) : Prop :=
  ∀ c ∈ s.head?, isBlank c = false

/-- No blank stands at the end. -/
def TightEnd (s : List Char) : Prop :=
  ∀ c ∈ s.getLast?, isBlank c = false

/-- The text neither starts nor ends with a blank. -/
structure Tight (s : List Char) : Prop where
  front : TightStart s
  back : TightEnd s

variable {p q s t w : List Char} {c : Char}

@[simp] theorem blanks_nil : Blanks [] := by
  simp [Blanks]

theorem blanks_append : Blanks (p ++ q) ↔ Blanks p ∧ Blanks q := by
  simp [Blanks, or_imp, forall_and]

@[simp] theorem blanks_reverse : Blanks w.reverse ↔ Blanks w := by
  simp [Blanks]

@[simp] theorem tightStart_nil : TightStart [] := by
  simp [TightStart]

@[simp] theorem tightStart_cons : TightStart (c :: s) ↔ isBlank c = false := by
  simp [TightStart]

@[simp] theorem tightEnd_nil : TightEnd [] := by
  simp [TightEnd]

@[simp] theorem tightEnd_append_singleton : TightEnd (s ++ [c]) ↔ isBlank c = false := by
  simp [TightEnd]

@[simp] theorem tightStart_reverse : TightStart s.reverse ↔ TightEnd s := by
  simp [TightStart, TightEnd]

/-- The first characters of a text decide whether it starts tight. -/
theorem tightStart_append (hs : s ≠ []) : TightStart (s ++ t) ↔ TightStart s := by
  cases s with
  | nil => exact absurd rfl hs
  | cons c s => simp

/-- The last characters of a text decide whether it ends tight. -/
theorem tightEnd_append (ht : t ≠ []) : TightEnd (s ++ t) ↔ TightEnd t := by
  rw [← tightStart_reverse, List.reverse_append, tightStart_append (by simpa using ht),
    tightStart_reverse]

/-- A text that starts with a blank has a gap in front of what starts tight. -/
theorem Blanks.gap (hw : Blanks w) (hs : TightStart s) (hc : isBlank c = true)
    (h : c :: t = w ++ s) : Gap w := by
  refine ⟨hw, ?_⟩
  rintro rfl
  have htight : isBlank c = false := by
    rw [List.nil_append] at h
    simpa [← h] using hs
  rw [hc] at htight
  exact absurd htight (by decide)

/-- A text that starts with no blank has no padding in front. -/
theorem Blanks.eq_nil_of_append (hp : Blanks p) (hs : TightStart (p ++ t)) : p = [] := by
  cases p with
  | nil => rfl
  | cons c p =>
      have hblank := hp c List.mem_cons_self
      rw [tightStart_cons.1 hs] at hblank
      exact absurd hblank (by decide)

/-- A gap starts with a blank. -/
theorem Gap.exists_cons (hw : Gap w) : ∃ c v, isBlank c = true ∧ w = c :: v := by
  cases w with
  | nil => exact absurd rfl hw.nonempty
  | cons c v => exact ⟨c, v, hw.blanks c (by simp), rfl⟩

/-- One space is a gap. -/
theorem gap_space : Gap " ".toList := by
  refine ⟨?_, by simp⟩
  intro c hc
  obtain rfl : c = ' ' := by simpa using hc
  decide

/-! ## Trimming -/

/-- A text is a run of blanks and what `trimStart` leaves. -/
theorem exists_trimStart (s : List Char) :
    ∃ w, Blanks w ∧ s = w ++ trimStart s ∧ TightStart (trimStart s) := by
  refine ⟨s.takeWhile isBlank, ?_, ?_, head?_dropWhile isBlank s⟩
  · intro c hc
    exact List.mem_takeWhile_imp hc
  · exact (List.takeWhile_append_dropWhile).symm

/-- Blanks in front of a tight start come off. -/
theorem trimStart_append (hw : Blanks w) (hs : TightStart s) : trimStart (w ++ s) = s :=
  dropWhile_run hw hs

theorem trimEnd_eq_reverse (s : List Char) : trimEnd s = (trimStart s.reverse).reverse := rfl

/-- A text is what `trimEnd` leaves and a run of blanks. -/
theorem exists_trimEnd (s : List Char) :
    ∃ w, Blanks w ∧ s = trimEnd s ++ w ∧ TightEnd (trimEnd s) := by
  rcases exists_trimStart s.reverse with ⟨w, hw, hs, ht⟩
  refine ⟨w.reverse, blanks_reverse.2 hw, ?_, ?_⟩
  · rw [trimEnd_eq_reverse, ← List.reverse_append, ← hs, List.reverse_reverse]
  · rw [trimEnd_eq_reverse, ← tightStart_reverse, List.reverse_reverse]
    exact ht

/-- Blanks behind a tight end come off. -/
theorem trimEnd_append (hs : TightEnd s) (hw : Blanks w) : trimEnd (s ++ w) = s := by
  rw [trimEnd_eq_reverse, List.reverse_append,
    trimStart_append (blanks_reverse.2 hw) (tightStart_reverse.2 hs), List.reverse_reverse]

/-- A first character that is no blank stays when the end is trimmed. -/
theorem trimEnd_cons (hc : isBlank c = false) : trimEnd (c :: s) = c :: trimEnd s := by
  rcases exists_trimEnd s with ⟨w, hw, hsplit, hend⟩
  -- what is kept ends tight: either the end of `s` does, or only `c` is left
  have htight : TightEnd (c :: trimEnd s) := by
    cases htrim : trimEnd s with
    | nil => exact (tightEnd_append_singleton (s := [])).2 hc
    | cons d t =>
        rw [← List.singleton_append, tightEnd_append (by simp), ← htrim]
        exact hend
  calc trimEnd (c :: s) = trimEnd ((c :: trimEnd s) ++ w) := by rw [List.cons_append, ← hsplit]
    _ = c :: trimEnd s := trimEnd_append htight hw

/-- Only the end is trimmed when no blank stands in front. -/
theorem trim_cons (hc : isBlank c = false) : trim (c :: s) = c :: trimEnd s := by
  have hstart : trimStart (c :: s) = c :: s :=
    trimStart_append blanks_nil (tightStart_cons.2 hc)
  rw [trim, hstart, trimEnd_cons hc]

/-- A blank in front comes off. -/
theorem trim_cons_blank (hc : isBlank c = true) : trim (c :: s) = trim s := by
  simp [trim, trimStart, hc]

/-- Trimming the end leaves the front of a tight start as it is. -/
theorem TightStart.trimEnd (hs : TightStart s) : TightStart (Text.trimEnd s) := by
  rcases exists_trimEnd s with ⟨w, _, hsplit, _⟩
  intro c hc
  apply hs c
  rw [hsplit, List.head?_append, Option.mem_def.1 hc]
  rfl

/-- A text without blanks at its ends stays as it is. -/
theorem Tight.trim_eq (hs : Tight s) : trim s = s := by
  have hstart : trimStart s = s := trimStart_append blanks_nil hs.front
  have hend : trimEnd s = s := by
    simpa using trimEnd_append hs.back blanks_nil
  rw [trim, hstart, hend]

/-- Padding comes off a tight text. -/
theorem trim_padded (hp : Blanks p) (hs : Tight s) (hq : Blanks q) : trim (p ++ s ++ q) = s := by
  rcases List.eq_nil_or_concat' s with rfl | ⟨r, c, rfl⟩
  · -- nothing but blanks: trimming the front takes `q` as well
    have hall : Blanks (p ++ [] ++ q) := by
      simpa using blanks_append.2 ⟨hp, hq⟩
    have hstart : trimStart (p ++ [] ++ q) = [] := by
      simpa using trimStart_append hall tightStart_nil
    rw [trim, hstart]
    rfl
  · -- the front stops at the text and never reaches `q`
    have hfront : TightStart (r ++ [c] ++ q) := by
      rw [tightStart_append (by simp)]
      exact hs.front
    rw [List.append_assoc, trim, trimStart_append hp hfront, trimEnd_append hs.back hq]

/-- Every text is its trimmed form with padding. -/
theorem exists_trim (s : List Char) :
    ∃ p q, Blanks p ∧ Blanks q ∧ s = p ++ trim s ++ q ∧ Tight (trim s) := by
  rcases exists_trimStart s with ⟨p, hp, hfront, htight⟩
  rcases exists_trimEnd (trimStart s) with ⟨q, hq, hback, hend⟩
  refine ⟨p, q, hp, hq, ?_, ⟨htight.trimEnd, hend⟩⟩
  rw [List.append_assoc, trim, ← hback, ← hfront]

theorem tight_trim (s : List Char) : Tight (trim s) := by
  rcases exists_trim s with ⟨-, -, -, -, -, htight⟩
  exact htight

@[simp] theorem trim_trim (s : List Char) : trim (trim s) = trim s :=
  (tight_trim s).trim_eq

/-- Padding around any text makes no difference. -/
theorem trim_append (hp : Blanks p) (hq : Blanks q) : trim (p ++ s ++ q) = trim s := by
  rcases exists_trim s with ⟨v, w, hv, hw, hsplit, htight⟩
  have hpadded : p ++ s ++ q = (p ++ v) ++ trim s ++ (w ++ q) := by
    conv_lhs => rw [hsplit]
    simp
  rw [hpadded, trim_padded (blanks_append.2 ⟨hp, hv⟩) htight (blanks_append.2 ⟨hw, hq⟩)]

theorem trim_infix (s : List Char) : trim s <:+: s := by
  rcases exists_trim s with ⟨p, q, -, -, hsplit, -⟩
  exact ⟨p, q, hsplit.symm⟩

/-- `trim` returns the one tight text that padding turns into the given one. -/
theorem trim_eq_iff : trim s = t ↔ Tight t ∧ ∃ p q, Blanks p ∧ Blanks q ∧ s = p ++ t ++ q := by
  constructor
  · rintro rfl
    rcases exists_trim s with ⟨p, q, hp, hq, hs, ht⟩
    exact ⟨ht, p, q, hp, hq, hs⟩
  · rintro ⟨ht, p, q, hp, hq, rfl⟩
    exact trim_padded hp ht hq

end CueScript.Text
