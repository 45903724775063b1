import CueScript.Json.Number
import CueScript.Json.Text

/-!
# CueScript.Json.Token — the tokens of a JSON document

A document is a sequence of tokens with white space between them; only space, tab, line feed and
carriage return count as white space. Main statement: what follows a token is shorter than the text
that starts with it, so that cutting a text into tokens ends.
-/

namespace CueScript.Json

inductive Token where
  | arrayOpen
  | arrayClose
  | objectOpen
  | objectClose
  | comma
  | colon
  | null
  | bool (b : Bool)
  | number (n : Number)
  | string (units : List StringUnit)
deriving Repr, DecidableEq

/-- The characters that may stand between tokens. -/
def isSpace (c : Char) : Bool :=
  c == ' ' || c == '\t' || c == '\n' || c == '\r'

/-- The token that a text starts with, and what follows it. -/
def token? : List Char → Option (Token × List Char)
  | '[' :: rest => some (.arrayOpen, rest)
  | ']' :: rest => some (.arrayClose, rest)
  | '{' :: rest => some (.objectOpen, rest)
  | '}' :: rest => some (.objectClose, rest)
  | ',' :: rest => some (.comma, rest)
  | ':' :: rest => some (.colon, rest)
  | '"' :: rest => (readBody? rest).map fun p => (.string p.1, p.2)
  | 'n' :: 'u' :: 'l' :: 'l' :: rest => some (.null, rest)
  | 't' :: 'r' :: 'u' :: 'e' :: rest => some (.bool true, rest)
  | 'f' :: 'a' :: 'l' :: 's' :: 'e' :: rest => some (.bool false, rest)
  | text => (Number.read? text).map fun p => (.number p.1, p.2)

/-! ## Progress -/

theorem Number.takeChar_length (c : Char) (s : List Char) :
    (Number.takeChar c s).2.length ≤ s.length := by
  cases s with
  | nil => simp [Number.takeChar]
  | cons d ds => rw [Number.takeChar]; split <;> simp

theorem Number.takeSign_length (s : List Char) : (Number.takeSign s).2.length ≤ s.length := by
  unfold Number.takeSign
  split <;> simp

/-- A non-empty run of digits makes a text shorter. -/
theorem splitDigits_length_lt {s : List Char} (h : (Decimal.splitDigits s).1 ≠ []) :
    (Decimal.splitDigits s).2.length < s.length := by
  cases s with
  | nil => simp [Decimal.splitDigits] at h
  | cons c cs =>
    have hcs := Decimal.splitDigits_length cs
    rw [Decimal.splitDigits] at h ⊢
    split
    · rw [List.length_cons]
      exact Nat.lt_succ_of_le hcs
    · next hd => exact absurd rfl (by rw [hd] at h; exact h)

theorem Number.readWhole?_length {s r : List Char} {n : Nat}
    (h : Number.readWhole? s = some (n, r)) : r.length < s.length := by
  unfold Number.readWhole? at h
  split at h
  · simp only [Option.some.injEq, Prod.mk.injEq] at h
    simp [← h.2]
  · split at h
    · simp at h
    · next ds rest hne hd =>
      simp only [Option.some.injEq, Prod.mk.injEq] at h
      have := splitDigits_length_lt (s := s) (by rw [hd]; exact hne)
      rw [hd] at this
      simpa [← h.2] using this

theorem Number.readFraction?_length {s r : List Char} {ds : List (Fin 10)}
    (h : Number.readFraction? s = some (ds, r)) : r.length ≤ s.length := by
  unfold Number.readFraction? at h
  split at h
  · next rest =>
    split at h
    · simp at h
    · next ds' rest' _ hd =>
      simp only [Option.some.injEq, Prod.mk.injEq] at h
      have := Decimal.splitDigits_length rest
      simp only [hd] at this
      simp only [← h.2, List.length_cons]
      omega
  · simp_all

theorem Number.readExponent?_length {s r : List Char} {e : Option Int}
    (h : Number.readExponent? s = some (e, r)) : r.length ≤ s.length := by
  unfold Number.readExponent? at h
  split at h
  · simp_all
  · next c rest =>
    split at h
    · have hs := Number.takeSign_length rest
      split at h
      · simp at h
      · next ds rest' _ hd =>
        simp only [Option.some.injEq, Prod.mk.injEq] at h
        have := Decimal.splitDigits_length (Number.takeSign rest).2
        simp only [hd] at this
        simp only [← h.2, List.length_cons]
        omega
    · simp_all

/-- What follows a number is shorter than the text that starts with it. -/
theorem Number.read?_length {s r : List Char} {n : Number}
    (h : Number.read? s = some (n, r)) : r.length < s.length := by
  simp only [Number.read?, bind, Option.bind_eq_some_iff] at h
  obtain ⟨⟨w, s₁⟩, hw, ⟨f, s₂⟩, hf, ⟨e, s₃⟩, he, hr⟩ := h
  have h₀ := Number.takeChar_length '-' s
  have h₁ := Number.readWhole?_length hw
  have h₂ := Number.readFraction?_length hf
  have h₃ := Number.readExponent?_length he
  simp only [pure, Option.some.injEq, Prod.mk.injEq] at hr
  simp only at h₁ h₂ h₃
  rw [← hr.2]
  omega

/-- What follows a token is shorter than the text that starts with it. -/
theorem token?_length {s r : List Char} {t : Token} (h : token? s = some (t, r)) :
    r.length < s.length := by
  unfold token? at h
  split at h
  case h_7 rest =>
    obtain ⟨⟨us, r'⟩, hp, he⟩ := Option.map_eq_some_iff.1 h
    simp only [Prod.mk.injEq] at he
    have := readBody?_length hp
    simp only [← he.2, List.length_cons]
    omega
  case h_11 =>
    obtain ⟨⟨n, r'⟩, hp, he⟩ := Option.map_eq_some_iff.1 h
    simp only [Prod.mk.injEq] at he
    rw [← he.2]
    exact Number.read?_length hp
  all_goals
    simp only [Option.some.injEq, Prod.mk.injEq] at h
    simp only [← h.2, List.length_cons]
    omega

/-! ## Sequences -/

theorem dropWhile_length_le (p : Char → Bool) (s : List Char) :
    (s.dropWhile p).length ≤ s.length :=
  (List.dropWhile_suffix p).length_le

/-- The tokens of a text; `none` when a part of it is neither a token nor white space. -/
def tokens? (s : List Char) : Option (List Token) :=
  if s.dropWhile isSpace = [] then some []
  else
    match h : token? (s.dropWhile isSpace) with
    | none => none
    | some (t, rest) =>
      have := Nat.lt_of_lt_of_le (token?_length h) (dropWhile_length_le isSpace s)
      (tokens? rest).map (t :: ·)
termination_by s.length

end CueScript.Json
