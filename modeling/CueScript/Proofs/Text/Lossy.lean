import Mathlib.Data.List.Induction
import CueScript.Proofs.Text.Utf8

/-!
# CueScript.Proofs.Text.Lossy — any bytes as a text, with a mark for each invalid part

1. **Parts**: a sequence of bytes is cut into the bytes of characters and into invalid parts. An
   invalid part is as long as the start of a character can be, and a single byte where none starts.
2. **Bytes of a character**: `Whole` lists them by their number, with the bounds of each byte.
3. **Decoding**: the machine leaves a character unfinished exactly at the end of an invalid part, so
   `decodeLossy` shows every sequence of bytes in the one way in which it can be cut.
-/

namespace CueScript.Text.Utf8

/-! ## Parts -/

/-- Bytes with which the encoding of some character starts. -/
def Starts (p : List UInt8) : Prop :=
  ∃ c : Char, p <+: String.utf8EncodeChar c

/-- An invalid part in front of other bytes: the start of a character that does not go on, as far
as it reaches, or a single byte with which no character starts. -/
structure InvalidPart (part rest : List UInt8) : Prop where
  nonempty : part ≠ []
  /-- No character is complete. -/
  incomplete : ∀ c : Char, String.utf8EncodeChar c ≠ part
  /-- The start of a character, unless it is a single byte. -/
  start : Starts part ∨ part.length = 1
  /-- No longer part of the bytes is the start of a character. -/
  longest : ∀ b ∈ rest.head?, ¬ Starts (part ++ [b])

/-- What a sequence of bytes shows: its characters, and one U+FFFD for each invalid part. -/
inductive Shows : List UInt8 → List Char → Prop where
  | nil : Shows [] []
  | char {bs : List UInt8} {s : List Char} (c : Char) (rest : Shows bs s) :
      Shows (String.utf8EncodeChar c ++ bs) (c :: s)
  | invalid {part bs : List UInt8} {s : List Char} (part_invalid : InvalidPart part bs)
      (rest : Shows bs s) : Shows (part ++ bs) ('\uFFFD' :: s)

/-! ## Bytes of a character -/

/-- A byte that is not the first one of a character. -/
def Continues (b : UInt8) : Prop :=
  0x80 ≤ b.toNat ∧ b.toNat ≤ 0xBF

/-- The bytes of one character. The second byte is bound more narrowly where the code point would be
too small for its length, a surrogate, or too large. -/
inductive Whole : List UInt8 → Prop where
  | one {a : UInt8} (ha : a.toNat < 0x80) : Whole [a]
  | two {a b : UInt8} (ha : 0xC2 ≤ a.toNat ∧ a.toNat ≤ 0xDF) (hb : Continues b) : Whole [a, b]
  | three {a b d : UInt8} (ha : 0xE0 ≤ a.toNat ∧ a.toNat ≤ 0xEF)
      (hb : (if a.toNat = 0xE0 then 0xA0 else 0x80) ≤ b.toNat ∧
        b.toNat ≤ if a.toNat = 0xED then 0x9F else 0xBF)
      (hd : Continues d) : Whole [a, b, d]
  | four {a b d e : UInt8} (ha : 0xF0 ≤ a.toNat ∧ a.toNat ≤ 0xF4)
      (hb : (if a.toNat = 0xF0 then 0x90 else 0x80) ≤ b.toNat ∧
        b.toNat ≤ if a.toNat = 0xF4 then 0x8F else 0xBF)
      (hd : Continues d) (he : Continues e) : Whole [a, b, d, e]

theorem whole_encodeChar (c : Char) : Whole (String.utf8EncodeChar c) := by
  have hvalid := toNat_cases c
  have hv : c.val.toNat = c.toNat := rfl
  simp only [String.utf8EncodeChar, hv]
  by_cases hone : c.toNat ≤ 0x7F
  · rw [if_pos hone]
    refine .one ?_
    rw [UInt8.toNat_ofNat']
    omega
  rw [if_neg hone]
  by_cases htwo : c.toNat ≤ 0x7FF
  · rw [if_pos htwo]
    refine .two ?_ ?_
    · rw [UInt8.toNat_ofNat']
      omega
    · rw [Continues, UInt8.toNat_ofNat']
      omega
  rw [if_neg htwo]
  by_cases hthree : c.toNat ≤ 0xFFFF
  · rw [if_pos hthree]
    refine .three ?_ ?_ ?_
    · rw [UInt8.toNat_ofNat']
      omega
    · rw [UInt8.toNat_ofNat', UInt8.toNat_ofNat']
      split_ifs <;> omega
    · rw [Continues, UInt8.toNat_ofNat']
      omega
  · rw [if_neg hthree]
    refine .four ?_ ?_ ?_ ?_
    · rw [UInt8.toNat_ofNat']
      omega
    · rw [UInt8.toNat_ofNat', UInt8.toNat_ofNat']
      split_ifs <;> omega
    · rw [Continues, UInt8.toNat_ofNat']
      omega
    · rw [Continues, UInt8.toNat_ofNat']
      omega

theorem val_ofNat {n : Nat} (h : n.isValidChar) : (Char.ofNat n).val.toNat = n := by
  rw [Char.ofNat, dif_pos h]
  rfl

/-- Bytes within these bounds are the bytes of a character. -/
theorem exists_of_whole {p : List UInt8} (h : Whole p) : ∃ c : Char, String.utf8EncodeChar c = p := by
  -- in each case, the code point `n` that the bits of the bytes give
  cases h with
  | @one a ha =>
      obtain ⟨n, hn⟩ : ∃ n, n = a.toNat := ⟨_, rfl⟩
      have hvalid : n.isValidChar := .inl (by omega)
      have hone : n ≤ 0x7F := by omega
      refine ⟨Char.ofNat n, ?_⟩
      simp only [String.utf8EncodeChar, val_ofNat hvalid, if_pos hone, List.cons.injEq,
        ← UInt8.toNat_inj, UInt8.toNat_ofNat', and_true]
      omega
  | @two a b ha hb =>
      rw [Continues] at hb
      obtain ⟨n, hn⟩ : ∃ n, n = (a.toNat - 0xC0) * 64 + (b.toNat - 0x80) := ⟨_, rfl⟩
      have hvalid : n.isValidChar := .inl (by omega)
      have hone : ¬ n ≤ 0x7F := by omega
      have htwo : n ≤ 0x7FF := by omega
      refine ⟨Char.ofNat n, ?_⟩
      simp only [String.utf8EncodeChar, val_ofNat hvalid, if_neg hone, if_pos htwo,
        List.cons.injEq, ← UInt8.toNat_inj, UInt8.toNat_ofNat', and_true]
      omega
  | @three a b d ha hb hd =>
      rw [Continues] at hd
      obtain ⟨n, hn⟩ : ∃ n, n = ((a.toNat - 0xE0) * 64 + (b.toNat - 0x80)) * 64
        + (d.toNat - 0x80) := ⟨_, rfl⟩
      have hbounds : 0x800 ≤ n ∧ n ≤ 0xFFFF ∧ (n < 0xD800 ∨ 0xE000 ≤ n) ∧ 0x80 ≤ b.toNat ∧
          b.toNat ≤ 0xBF := by
        split_ifs at hb <;> omega
      have hvalid : n.isValidChar := by
        rw [Nat.isValidChar]
        omega
      have hone : ¬ n ≤ 0x7F := by omega
      have htwo : ¬ n ≤ 0x7FF := by omega
      refine ⟨Char.ofNat n, ?_⟩
      simp only [String.utf8EncodeChar, val_ofNat hvalid, if_neg hone, if_neg htwo,
        if_pos hbounds.2.1, List.cons.injEq, ← UInt8.toNat_inj, UInt8.toNat_ofNat', and_true]
      omega
  | @four a b d e ha hb hd he =>
      rw [Continues] at hd he
      obtain ⟨n, hn⟩ : ∃ n, n = (((a.toNat - 0xF0) * 64 + (b.toNat - 0x80)) * 64
        + (d.toNat - 0x80)) * 64 + (e.toNat - 0x80) := ⟨_, rfl⟩
      have hbounds : 0x10000 ≤ n ∧ n < 0x110000 ∧ 0x80 ≤ b.toNat ∧ b.toNat ≤ 0xBF := by
        split_ifs at hb <;> omega
      have hvalid : n.isValidChar := by
        rw [Nat.isValidChar]
        omega
      have hone : ¬ n ≤ 0x7F := by omega
      have htwo : ¬ n ≤ 0x7FF := by omega
      have hthree : ¬ n ≤ 0xFFFF := by omega
      refine ⟨Char.ofNat n, ?_⟩
      simp only [String.utf8EncodeChar, val_ofNat hvalid, if_neg hone, if_neg htwo,
        if_neg hthree, List.cons.injEq, ← UInt8.toNat_inj, UInt8.toNat_ofNat', and_true]
      omega

/-- The bytes in front of others with which they are the bytes of a character. -/
theorem starts_iff {p : List UInt8} : Starts p ↔ ∃ more, Whole (p ++ more) := by
  constructor
  · rintro ⟨c, more, hc⟩
    refine ⟨more, ?_⟩
    rw [hc]
    exact whole_encodeChar c
  · rintro ⟨more, hwhole⟩
    rcases exists_of_whole hwhole with ⟨c, hc⟩
    exact ⟨c, more, hc.symm⟩

/-! ## Decoding -/

/-- After these bytes the machine has put out nothing and waits for `count` more. They complete a
character exactly when the first of them lies within the bounds and the others continue it. -/
structure Waits (p : List UInt8) (count bits low high : Nat) : Prop where
  count_pos : 0 < count
  bounds : low ≤ high ∧ high < 256
  taken : ∀ bs, pieces .idle (p ++ bs) = pieces (.awaiting count bits low high) bs
  completed : ∀ (b : UInt8) (tail : List UInt8), Whole (p ++ b :: tail) ↔
    (low ≤ b.toNat ∧ b.toNat ≤ high) ∧ tail.length + 1 = count ∧ ∀ d ∈ tail, Continues d

section Decoding

variable {p more bs : List UInt8} {a b : UInt8} {count bits low high : Nat}

theorem pieces_first (a : UInt8) (bs : List UInt8) :
    pieces .idle ([a] ++ bs) = (startByte a.toNat).1 ++ pieces (startByte a.toNat).2 bs := rfl

theorem waits_two (ha : 0xC2 ≤ a.toNat ∧ a.toNat ≤ 0xDF) :
    Waits [a] 1 (a.toNat - 0xC0) 0x80 0xBF where
  count_pos := by decide
  bounds := by decide
  taken bs := by
    rw [pieces_first, startByte_two ha]
    rfl
  completed b tail := by
    constructor
    · intro h
      cases h with
      | two _ hb => exact ⟨hb, rfl, by simp⟩
      | three ha' _ _ => omega
      | four ha' _ _ _ => omega
    · rintro ⟨hb, hlength, -⟩
      obtain rfl : tail = [] := by simpa using hlength
      exact .two ha hb

theorem waits_three (ha : 0xE0 ≤ a.toNat ∧ a.toNat ≤ 0xEF) :
    Waits [a] 2 (a.toNat - 0xE0) (if a.toNat = 0xE0 then 0xA0 else 0x80)
      (if a.toNat = 0xED then 0x9F else 0xBF) where
  count_pos := by decide
  bounds := by split_ifs <;> omega
  taken bs := by
    rw [pieces_first, startByte_three ha]
    rfl
  completed b tail := by
    constructor
    · intro h
      cases h with
      | two ha' _ => omega
      | three _ hb hd => exact ⟨hb, rfl, by simpa using hd⟩
      | four ha' _ _ _ => omega
    · rintro ⟨hb, hlength, htail⟩
      obtain ⟨d, rfl⟩ : ∃ d, tail = [d] := List.length_eq_one_iff.1 (by simpa using hlength)
      exact .three ha hb (htail d (by simp))

theorem waits_four (ha : 0xF0 ≤ a.toNat ∧ a.toNat ≤ 0xF4) :
    Waits [a] 3 (a.toNat - 0xF0) (if a.toNat = 0xF0 then 0x90 else 0x80)
      (if a.toNat = 0xF4 then 0x8F else 0xBF) where
  count_pos := by decide
  bounds := by split_ifs <;> omega
  taken bs := by
    rw [pieces_first, startByte_four ha]
    rfl
  completed b tail := by
    constructor
    · intro h
      cases h with
      | two ha' _ => omega
      | three ha' _ _ => omega
      | four _ hb hd he => exact ⟨hb, rfl, by simpa using ⟨hd, he⟩⟩
    · rintro ⟨hb, hlength, htail⟩
      obtain ⟨d, e, rfl⟩ : ∃ d e, tail = [d, e] := List.length_eq_two.1 (by simpa using hlength)
      exact .four ha hb (htail d (by simp)) (htail e (by simp))

/-- One more byte is taken. -/
theorem Waits.next (h : Waits p count bits low high) (hb : low ≤ b.toNat ∧ b.toNat ≤ high)
    (hcount : 1 < count) :
    Waits (p ++ [b]) (count - 1) (bits * 64 + (b.toNat - 0x80)) 0x80 0xBF where
  count_pos := by omega
  bounds := by decide
  taken bs := by
    rw [List.append_assoc, h.taken, List.singleton_append, pieces, stepByte_more hcount hb]
    rfl
  completed d tail := by
    rw [List.append_assoc, List.singleton_append, h.completed, List.length_cons, List.forall_mem_cons]
    constructor
    · rintro ⟨-, hlength, hd, htail⟩
      exact ⟨hd, by omega, htail⟩
    · rintro ⟨hd, hlength, htail⟩
      exact ⟨hb, by omega, hd, htail⟩

/-- The machine waits inside every character. -/
theorem exists_waits (h : Whole (p ++ more)) (hp : p ≠ []) (hmore : more ≠ []) :
    ∃ count bits low high, Waits p count bits low high := by
  induction p using List.reverseRecOn generalizing more with
  | nil => exact absurd rfl hp
  | append_singleton p b ih =>
      rw [List.append_assoc, List.singleton_append] at h
      cases p with
      | nil =>
          cases h with
          | one ha => exact absurd rfl hmore
          | two ha hb => exact ⟨_, _, _, _, waits_two ha⟩
          | three ha hb hd => exact ⟨_, _, _, _, waits_three ha⟩
          | four ha hb hd he => exact ⟨_, _, _, _, waits_four ha⟩
      | cons a p =>
          rcases ih h (List.cons_ne_nil a p) (List.cons_ne_nil b more) with
            ⟨count, bits, low, high, hwaits⟩
          obtain ⟨hb, hlength, -⟩ := (hwaits.completed b more).1 h
          -- more bytes follow this one
          have hpos := List.length_pos_iff.2 hmore
          exact ⟨_, _, _, _, hwaits.next hb (by omega)⟩

/-- Every byte within the bounds goes on with a character. -/
theorem Waits.starts_append (h : Waits p count bits low high)
    (hb : low ≤ b.toNat ∧ b.toNat ≤ high) : Starts (p ++ [b]) := by
  have hfill : Whole (p ++ b :: List.replicate (count - 1) 0x80) := by
    rw [h.completed, List.length_replicate]
    refine ⟨hb, Nat.sub_add_cancel h.count_pos, ?_⟩
    intro d hd
    rw [List.eq_of_mem_replicate hd, Continues]
    decide
  exact starts_iff.2 ⟨List.replicate (count - 1) 0x80, by simpa using hfill⟩

/-- There is a byte to go on with. -/
theorem Waits.starts (h : Waits p count bits low high) : Starts p := by
  have hbyte : (UInt8.ofNat low).toNat = low := by
    rw [UInt8.toNat_ofNat']
    exact Nat.mod_eq_of_lt (Nat.lt_of_le_of_lt h.bounds.1 h.bounds.2)
  have hlow : Starts (p ++ [UInt8.ofNat low]) :=
    h.starts_append ⟨Nat.le_of_eq hbyte.symm, Nat.le_trans (Nat.le_of_eq hbyte) h.bounds.1⟩
  rcases hlow with ⟨c, hc⟩
  exact ⟨c, (List.prefix_append p _).trans hc⟩

/-- A byte with which no character starts. -/
theorem startByte_of_not_starts (h : ¬ Starts [a]) : startByte a.toNat = ([none], .idle) := by
  have hone : ¬ a.toNat < 0x80 := fun ha => h (starts_iff.2 ⟨[], .one ha⟩)
  have htwo : ¬ (0xC2 ≤ a.toNat ∧ a.toNat ≤ 0xDF) := fun ha => h (waits_two ha).starts
  have hthree : ¬ (0xE0 ≤ a.toNat ∧ a.toNat ≤ 0xEF) := fun ha => h (waits_three ha).starts
  have hfour : ¬ (0xF0 ≤ a.toNat ∧ a.toNat ≤ 0xF4) := fun ha => h (waits_four ha).starts
  rw [startByte, if_neg hone, if_neg htwo, if_neg (by omega), if_neg (by omega), if_neg (by omega),
    if_neg (by omega), if_neg (by omega), if_neg (by omega)]

/-- A byte out of bounds, or the end, makes an invalid part of what the machine has taken. -/
theorem pieces_awaiting (h : ∀ b ∈ bs.head?, ¬ (low ≤ b.toNat ∧ b.toNat ≤ high)) :
    pieces (.awaiting count bits low high) bs = none :: pieces .idle bs := by
  cases bs with
  | nil => simp [pieces]
  | cons b bs =>
      have hb : ¬ (low ≤ b.toNat ∧ b.toNat ≤ high) := h b rfl
      simp only [pieces, stepByte, if_neg hb, List.cons_append]

/-- An invalid part is one mark. -/
theorem InvalidPart.pieces_append (h : InvalidPart p bs) :
    pieces .idle (p ++ bs) = none :: pieces .idle bs := by
  by_cases hstarts : Starts p
  · rcases starts_iff.1 hstarts with ⟨more, hwhole⟩
    have hmore : more ≠ [] := by
      rintro rfl
      rw [List.append_nil] at hwhole
      rcases exists_of_whole hwhole with ⟨c, hc⟩
      exact h.incomplete c hc
    rcases exists_waits hwhole h.nonempty hmore with ⟨count, bits, low, high, hwaits⟩
    rw [hwaits.taken]
    exact pieces_awaiting fun b hb hbounds => h.longest b hb (hwaits.starts_append hbounds)
  · -- a byte that starts no character
    obtain ⟨a, rfl⟩ := List.length_eq_one_iff.1 (h.start.resolve_left hstarts)
    rw [pieces_first, startByte_of_not_starts hstarts]
    rfl

/-- What is shown is what is decoded. -/
theorem Shows.decodeLossy_eq {s : List Char} (h : Shows bs s) : decodeLossy bs = s := by
  induction h with
  | nil => rfl
  | char c rest ih =>
      rw [decodeLossy, pieces_encodeChar, List.map_cons]
      exact congrArg (c :: ·) ih
  | invalid part_invalid rest ih =>
      rw [decodeLossy, part_invalid.pieces_append, List.map_cons]
      exact congrArg ('\uFFFD' :: ·) ih

end Decoding

/-! ## Cuts -/

/-- The start of a character reaches up to some byte, or to the end. -/
theorem exists_longest {p : List UInt8} (hp : Starts p) (rest : List UInt8) :
    ∃ q bs, rest = q ++ bs ∧ Starts (p ++ q) ∧ ∀ b ∈ bs.head?, ¬ Starts (p ++ q ++ [b]) := by
  induction rest generalizing p with
  | nil => exact ⟨[], [], rfl, by simpa using hp, by simp⟩
  | cons b rest ih =>
      by_cases hb : Starts (p ++ [b])
      · rcases ih hb with ⟨q, bs, rfl, hq, hlongest⟩
        exact ⟨b :: q, bs, rfl, by simpa using hq, by simpa using hlongest⟩
      · exact ⟨[], b :: rest, rfl, by simpa using hp, by simpa using hb⟩

/-- A sequence of bytes begins with a character or with an invalid part. -/
theorem exists_first_part (a : UInt8) (rest : List UInt8) :
    (∃ c bs, a :: rest = String.utf8EncodeChar c ++ bs) ∨
      ∃ part bs, a :: rest = part ++ bs ∧ InvalidPart part bs := by
  by_cases ha : Starts [a]
  · rcases exists_longest ha rest with ⟨q, bs, rfl, hq, hlongest⟩
    by_cases hwhole : ∃ c, String.utf8EncodeChar c = [a] ++ q
    · rcases hwhole with ⟨c, hc⟩
      exact .inl ⟨c, bs, by simp [hc]⟩
    · exact .inr ⟨[a] ++ q, bs, rfl, by simp, not_exists.1 hwhole, .inl hq, hlongest⟩
  · -- nothing longer starts a character either
    refine .inr ⟨[a], rest, rfl, by simp, ?_, .inr rfl, ?_⟩
    · intro c hc
      exact ha ⟨c, hc ▸ List.prefix_refl [a]⟩
    · rintro b - ⟨c, hc⟩
      exact ha ⟨c, (List.prefix_append [a] [b]).trans hc⟩

/-- Every sequence of bytes can be cut. -/
theorem exists_shows (bytes : List UInt8) : ∃ s, Shows bytes s := by
  -- what is left behind the first part is shorter
  induction hn : bytes.length using Nat.strongRecOn generalizing bytes with
  | ind n ih =>
      cases bytes with
      | nil => exact ⟨[], .nil⟩
      | cons a rest =>
          rcases exists_first_part a rest with ⟨c, bs, hcut⟩ | ⟨part, bs, hcut, hpart⟩
          · have hpos := List.length_pos_iff.2 (String.utf8EncodeChar_ne_nil (c := c))
            rw [hcut, List.length_append] at hn
            rcases ih bs.length (by omega) bs rfl with ⟨s, hs⟩
            exact ⟨c :: s, hcut ▸ .char c hs⟩
          · have hpos := List.length_pos_iff.2 hpart.nonempty
            rw [hcut, List.length_append] at hn
            rcases ih bs.length (by omega) bs rfl with ⟨s, hs⟩
            exact ⟨'\uFFFD' :: s, hcut ▸ .invalid hpart hs⟩

/-- Every sequence of bytes shows one text. -/
theorem shows_iff {bytes : List UInt8} {s : List Char} : Shows bytes s ↔ decodeLossy bytes = s := by
  constructor
  · exact Shows.decodeLossy_eq
  · rintro rfl
    rcases exists_shows bytes with ⟨s, hs⟩
    rw [hs.decodeLossy_eq]
    exact hs

/-- An encoded text shows itself. -/
theorem shows_encode (s : List Char) : Shows (encode s) s := by
  induction s with
  | nil => exact .nil
  | cons c s ih => exact .char c ih

theorem decodeLossy_encode (s : List Char) : decodeLossy (encode s) = s :=
  (shows_encode s).decodeLossy_eq

end CueScript.Text.Utf8
