import Mathlib.Data.List.Basic
import CueScript.Text.Utf8

/-!
# CueScript.Proofs.Text.Utf8 — encoded texts are decoded to themselves and keep their order

The machine that decodes is followed over the bytes of one character, by the number of bytes: it
puts out the character with the last of them and waits for nothing more. The first byte bounds the
second one, which keeps out code points that are too small for their length, surrogates, and code
points that are too large. No character is one of these.
-/

namespace CueScript.Text.Utf8

/-! ## Steps -/

/-- The first of two bytes. -/
theorem startByte_two {b : Nat} (hb : 0xC2 ≤ b ∧ b ≤ 0xDF) :
    startByte b = ([], .awaiting 1 (b - 0xC0) 0x80 0xBF) := by
  have hone : ¬ b < 0x80 := by omega
  rw [startByte, if_neg hone, if_pos hb]

/-- The first of three bytes. -/
theorem startByte_three {b : Nat} (hb : 0xE0 ≤ b ∧ b ≤ 0xEF) :
    startByte b = ([], .awaiting 2 (b - 0xE0) (if b = 0xE0 then 0xA0 else 0x80)
      (if b = 0xED then 0x9F else 0xBF)) := by
  have hone : ¬ b < 0x80 := by omega
  have htwo : ¬ (0xC2 ≤ b ∧ b ≤ 0xDF) := by omega
  rw [startByte, if_neg hone, if_neg htwo]
  by_cases hlow : b = 0xE0
  · simp [hlow]
  · by_cases hhigh : b = 0xED
    · simp [hhigh]
    · have hrange : 0xE1 ≤ b ∧ b ≤ 0xEF := by omega
      simp [hlow, hhigh, hrange]

/-- The first of four bytes. -/
theorem startByte_four {b : Nat} (hb : 0xF0 ≤ b ∧ b ≤ 0xF4) :
    startByte b = ([], .awaiting 3 (b - 0xF0) (if b = 0xF0 then 0x90 else 0x80)
      (if b = 0xF4 then 0x8F else 0xBF)) := by
  obtain rfl | rfl | rfl | rfl | rfl : b = 0xF0 ∨ b = 0xF1 ∨ b = 0xF2 ∨ b = 0xF3 ∨ b = 0xF4 := by
    omega
  · rfl
  · rfl
  · rfl
  · rfl
  · rfl

variable {count bits low high b : Nat}

/-- A continuation byte within its bounds, with more to come. -/
theorem stepByte_more (hcount : 1 < count) (hb : low ≤ b ∧ b ≤ high) :
    stepByte (.awaiting count bits low high) b
      = ([], .awaiting (count - 1) (bits * 64 + (b - 0x80)) 0x80 0xBF) := by
  simp only [stepByte, if_pos hb, if_neg (Nat.not_le.2 hcount)]

/-- The last continuation byte. -/
theorem stepByte_last (hb : low ≤ b ∧ b ≤ high) :
    stepByte (.awaiting 1 bits low high) b
      = ([some (Char.ofNat (bits * 64 + (b - 0x80)))], .idle) := by
  simp [stepByte, hb]

/-- Bounds that are narrower in a special case. -/
theorem le_ite_and_ite_le {p q : Prop} [Decidable p] [Decidable q] {b low low' high high' : Nat}
    (hb : low ≤ b ∧ b ≤ high) (hp : p → low' ≤ b) (hq : q → b ≤ high') :
    (if p then low' else low) ≤ b ∧ b ≤ (if q then high' else high) := by
  constructor
  · split
    · next h => exact hp h
    · exact hb.1
  · split
    · next h => exact hq h
    · exact hb.2

/-! ## Characters -/

section Characters

variable (bs : List UInt8) {a b d e : Nat}

/-- One byte is taken at a time. -/
theorem pieces_cons (p : Pending) (hb : b < 256) :
    pieces p (UInt8.ofNat b :: bs) = (stepByte p b).1 ++ pieces (stepByte p b).2 bs := by
  have hbyte : (UInt8.ofNat b).toNat = b := by
    rw [UInt8.toNat_ofNat']
    exact Nat.mod_eq_of_lt hb
  rw [pieces, hbyte]

theorem pieces_one (ha : a < 0x80) :
    pieces .idle (UInt8.ofNat a :: bs) = some (Char.ofNat a) :: pieces .idle bs := by
  have hstart : stepByte .idle a = ([some (Char.ofNat a)], .idle) := if_pos ha
  rw [pieces_cons bs .idle (by omega), hstart]
  rfl

theorem pieces_two (ha : 0xC2 ≤ a ∧ a ≤ 0xDF) (hb : 0x80 ≤ b ∧ b ≤ 0xBF) :
    pieces .idle (UInt8.ofNat a :: UInt8.ofNat b :: bs)
      = some (Char.ofNat ((a - 0xC0) * 64 + (b - 0x80))) :: pieces .idle bs := by
  have hstart : stepByte .idle a = _ := startByte_two ha
  rw [pieces_cons _ .idle (by omega), hstart, List.nil_append, pieces_cons _ _ (by omega),
    stepByte_last hb]
  rfl

theorem pieces_three (ha : 0xE0 ≤ a ∧ a ≤ 0xEF) (hb : 0x80 ≤ b ∧ b ≤ 0xBF)
    (hsmall : a = 0xE0 → 0xA0 ≤ b) (hsurrogate : a = 0xED → b ≤ 0x9F)
    (hd : 0x80 ≤ d ∧ d ≤ 0xBF) :
    pieces .idle (UInt8.ofNat a :: UInt8.ofNat b :: UInt8.ofNat d :: bs)
      = some (Char.ofNat (((a - 0xE0) * 64 + (b - 0x80)) * 64 + (d - 0x80)))
        :: pieces .idle bs := by
  have hstart : stepByte .idle a = _ := startByte_three ha
  have hbounds := le_ite_and_ite_le hb hsmall hsurrogate
  rw [pieces_cons _ .idle (by omega), hstart, List.nil_append, pieces_cons _ _ (by omega),
    stepByte_more (by decide) hbounds, List.nil_append, pieces_cons _ _ (by omega),
    stepByte_last hd]
  rfl

theorem pieces_four (ha : 0xF0 ≤ a ∧ a ≤ 0xF4) (hb : 0x80 ≤ b ∧ b ≤ 0xBF)
    (hsmall : a = 0xF0 → 0x90 ≤ b) (hlarge : a = 0xF4 → b ≤ 0x8F) (hd : 0x80 ≤ d ∧ d ≤ 0xBF)
    (he : 0x80 ≤ e ∧ e ≤ 0xBF) :
    pieces .idle (UInt8.ofNat a :: UInt8.ofNat b :: UInt8.ofNat d :: UInt8.ofNat e :: bs)
      = some (Char.ofNat ((((a - 0xF0) * 64 + (b - 0x80)) * 64 + (d - 0x80)) * 64 + (e - 0x80)))
        :: pieces .idle bs := by
  have hstart : stepByte .idle a = _ := startByte_four ha
  have hbounds := le_ite_and_ite_le hb hsmall hlarge
  rw [pieces_cons _ .idle (by omega), hstart, List.nil_append, pieces_cons _ _ (by omega),
    stepByte_more (by decide) hbounds, List.nil_append, pieces_cons _ _ (by omega),
    stepByte_more (by decide) hd, List.nil_append, pieces_cons _ _ (by omega), stepByte_last he]
  rfl

/-- A character is no surrogate, and its code point is not too large. -/
theorem toNat_cases (c : Char) :
    c.toNat < 0xD800 ∨ 0xE000 ≤ c.toNat ∧ c.toNat < 0x110000 := by
  rcases c.valid with h | h
  · exact .inl h
  · exact .inr ⟨h.1, h.2⟩

/-- The bytes of a character give the character. -/
theorem pieces_encodeChar (c : Char) :
    pieces .idle (String.utf8EncodeChar c ++ bs) = some c :: pieces .idle bs := by
  have hvalid := toNat_cases c
  have hself : Char.ofNat c.toNat = c := Char.ofNat_toNat c
  have hv : c.val.toNat = c.toNat := rfl
  simp only [String.utf8EncodeChar, hv]
  by_cases hone : c.toNat ≤ 0x7F
  · rw [if_pos hone, List.singleton_append, pieces_one bs (by omega), hself]
  rw [if_neg hone]
  by_cases htwo : c.toNat ≤ 0x7FF
  · have hbits : (c.toNat / 64 % 32 + 192 - 0xC0) * 64 + (c.toNat % 64 + 128 - 0x80) = c.toNat := by
      omega
    rw [if_pos htwo, List.cons_append, List.singleton_append, pieces_two bs (by omega) (by omega),
      hbits, hself]
  rw [if_neg htwo]
  by_cases hthree : c.toNat ≤ 0xFFFF
  · have hbits : ((c.toNat / 4096 % 16 + 224 - 0xE0) * 64 + (c.toNat / 64 % 64 + 128 - 0x80)) * 64
        + (c.toNat % 64 + 128 - 0x80) = c.toNat := by
      omega
    rw [if_pos hthree, List.cons_append, List.cons_append, List.singleton_append,
      pieces_three bs (by omega) (by omega) (by omega) (by omega) (by omega), hbits, hself]
  · have hbits : (((c.toNat / 262144 % 8 + 240 - 0xF0) * 64 + (c.toNat / 4096 % 64 + 128 - 0x80))
        * 64 + (c.toNat / 64 % 64 + 128 - 0x80)) * 64 + (c.toNat % 64 + 128 - 0x80) = c.toNat := by
      omega
    rw [if_neg hthree, List.cons_append, List.cons_append, List.cons_append, List.singleton_append,
      pieces_four bs (by omega) (by omega) (by omega) (by omega) (by omega) (by omega), hbits,
      hself]

end Characters

/-! ## Texts -/

/-- An encoded text has no invalid part. -/
theorem pieces_encode (s : List Char) : pieces .idle (encode s) = s.map some := by
  induction s with
  | nil => rfl
  | cons c s ih =>
      have hsplit : encode (c :: s) = String.utf8EncodeChar c ++ encode s := rfl
      rw [hsplit, pieces_encodeChar, ih, List.map_cons]

/-- An encoded text is decoded to itself. -/
theorem decode?_encode (s : List Char) : decode? (encode s) = some s := by
  rw [decode?, pieces_encode]
  induction s with
  | nil => rfl
  | cons c s ih =>
      rw [List.map_cons, List.mapM_cons, ih]
      rfl

/-! ## Order -/

/-- The bytes of a character with a smaller code point come first, whatever follows them. -/
theorem lex_encodeChar {c d : Char} (h : c.toNat < d.toNat) (s t : List UInt8) :
    List.Lex (· < ·) (String.utf8EncodeChar c ++ s) (String.utf8EncodeChar d ++ t) := by
  have hd := toNat_cases d
  have hvc : c.val.toNat = c.toNat := rfl
  have hvd : d.val.toNat = d.toNat := rfl
  have hcontinuation : ∀ n, (n % 64 + 128) % 256 = n % 64 + 128 := by
    intro n
    omega
  have hleadc : (c.toNat / 262144 % 8 + 240) % 256 = c.toNat / 262144 + 240 := by omega
  have hleadd : (d.toNat / 262144 % 8 + 240) % 256 = d.toNat / 262144 + 240 := by omega
  simp only [String.utf8EncodeChar, hvc, hvd]
  -- one case for each pair of lengths
  split_ifs
  all_goals
    simp only [List.cons_append, List.nil_append, List.cons_lex_cons_iff, UInt8.lt_iff_toNat_lt,
      ← UInt8.toNat_inj, UInt8.toNat_ofNat', hcontinuation, hleadc, hleadd]
    omega

theorem lex_append_left {s t : List UInt8} (h : List.Lex (· < ·) s t) (w : List UInt8) :
    List.Lex (· < ·) (w ++ s) (w ++ t) := by
  induction w with
  | nil => exact h
  | cons b w ih => exact .cons ih

/-- Texts in the order of their code points are in the order of their bytes. -/
theorem lex_encode {s t : List Char} (h : List.Lex (fun c d => c.toNat < d.toNat) s t) :
    List.Lex (· < ·) (encode s) (encode t) := by
  induction h with
  | @nil c s =>
      have hcons : encode (c :: s) = String.utf8EncodeChar c ++ encode s := rfl
      rw [hcons]
      cases hbytes : String.utf8EncodeChar c with
      | nil => exact absurd hbytes String.utf8EncodeChar_ne_nil
      | cons b bs => exact .nil
  | @rel c s d t hcd => exact lex_encodeChar hcd (encode s) (encode t)
  | @cons c s t _ ih => exact lex_append_left ih (String.utf8EncodeChar c)

end CueScript.Text.Utf8
