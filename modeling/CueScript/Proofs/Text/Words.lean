import CueScript.Proofs.Text.Runs

/-!
# CueScript.Proofs.Text.Words — a text is its words and the blanks around them

1. **Layouts**: a `WordLayout` cuts a text into words with runs of blanks around them, so that no
   two words touch.
2. **Splitting**: `words` lists the words of every layout. Blanks in front play no part, and a word
   reaches as far as its run of characters does.
3. **Uniqueness**: every text has one layout, and its words hold all characters but the blanks, in
   order.
-/

namespace CueScript.Text

/-! ## Layouts -/

/-- A run of characters without blanks that holds at least one. -/
structure Word (x : List Char) : Prop where
  nonempty : x ≠ []
  solid : ∀ c ∈ x, isBlank c = false

/-- Words with the runs of blanks behind them. Only behind the last one there may be no blank. -/
inductive Spaced : List (List Char × List Char) → Prop where
  | nil : Spaced []
  | cons {x w : List Char} {ps : List (List Char × List Char)} (word : Word x) (blanks : Blanks w)
      (apart : ps ≠ [] → w ≠ []) (rest : Spaced ps) : Spaced ((x, w) :: ps)

/-- The text that words make together with what stands behind them. -/
def joined (ps : List (List Char × List Char)) : List Char :=
  ps.flatMap fun p => p.1 ++ p.2

/-- A text as words: blanks in front, then each word with the blanks behind it. -/
structure WordLayout (s : List Char) where
  lead : List Char
  pieces : List (List Char × List Char)
  blanks : Blanks lead
  spaced : Spaced pieces
  text : s = lead ++ joined pieces

def WordLayout.words {s : List Char} (l : WordLayout s) : List (List Char) :=
  l.pieces.map Prod.fst

variable {s t w x : List Char} {c : Char} {ps qs : List (List Char × List Char)}

@[simp] theorem joined_nil : joined [] = [] := rfl

@[simp] theorem joined_cons : joined ((x, w) :: ps) = x ++ (w ++ joined ps) := by
  simp [joined]

/-- A word starts with no blank, so words in a row do not either. -/
theorem Spaced.tightStart (h : Spaced ps) : TightStart (joined ps) := by
  cases h with
  | nil => exact tightStart_nil
  | @cons x w ps word blanks apart rest =>
      rw [joined_cons, tightStart_append word.nonempty]
      intro c hc
      exact word.solid c (List.mem_of_mem_head? hc)

/-- What stands behind a word starts with a blank, or there is nothing more. -/
theorem blank_behind (hw : Blanks w) (hps : ps ≠ [] → w ≠ []) :
    ∀ c ∈ (w ++ joined ps).head?, isBlank c = true := by
  cases w with
  | cons b w =>
      intro c hc
      obtain rfl : b = c := Option.some.inj hc
      exact hw b List.mem_cons_self
  | nil =>
      have hnil : ps = [] := by
        by_contra hne
        exact hps hne rfl
      simp [hnil]

/-! ## Splitting -/

theorem words_cons_blank (hc : isBlank c = true) : words (c :: s) = words s := by
  simp [words, splitWord, hc, consWord]

/-- Blanks in front belong to no word. -/
theorem words_append_of_blanks (hw : Blanks w) : words (w ++ s) = words s := by
  induction w with
  | nil => rfl
  | cons b w ih =>
      rw [List.cons_append, words_cons_blank (hw b List.mem_cons_self)]
      exact ih fun c hc => hw c (List.mem_cons_of_mem b hc)

/-- No word is open where a text starts with a blank, or is at its end. -/
theorem splitWord_of_blank (hs : ∀ c ∈ s.head?, isBlank c = true) :
    splitWord s = ([], words s) := by
  cases s with
  | nil => rfl
  | cons b s =>
      have hb : isBlank b = true := hs b rfl
      rw [words_cons_blank hb]
      simp [splitWord, hb, words]

/-- Blanks at the end belong to no word either. -/
theorem splitWord_append_blanks (hw : Blanks w) : splitWord (s ++ w) = splitWord s := by
  induction s with
  | nil =>
      have hfront : ∀ c ∈ w.head?, isBlank c = true := fun c hc => hw c (List.mem_of_mem_head? hc)
      have hnone : words w = [] := by
        have hrun := words_append_of_blanks (s := []) hw
        rw [List.append_nil] at hrun
        exact hrun
      rw [List.nil_append, splitWord_of_blank hfront, hnone]
      rfl
  | cons c s ih => rw [List.cons_append, splitWord, splitWord, ih]

theorem words_append_blanks (hw : Blanks w) : words (s ++ w) = words s := by
  rw [words, splitWord_append_blanks hw, words]

/-- An open word takes in all characters up to the next blank. -/
theorem splitWord_append (hx : ∀ c ∈ x, isBlank c = false)
    (hs : ∀ c ∈ s.head?, isBlank c = true) : splitWord (x ++ s) = (x, words s) := by
  induction x with
  | nil => exact splitWord_of_blank hs
  | cons c x ih =>
      have hc : isBlank c = false := hx c List.mem_cons_self
      rw [List.cons_append, splitWord, ih fun d hd => hx d (List.mem_cons_of_mem c hd)]
      simp [hc]

/-- A word in front of a blank is the first word. -/
theorem words_append_of_word (hx : Word x) (hs : ∀ c ∈ s.head?, isBlank c = true) :
    words (x ++ s) = x :: words s := by
  rw [words, splitWord_append hx.solid hs, consWord, if_neg (by simpa using hx.nonempty)]

theorem words_joined (h : Spaced ps) : words (joined ps) = ps.map Prod.fst := by
  induction h with
  | nil => rfl
  | cons word blanks apart rest ih =>
      rw [joined_cons, words_append_of_word word (blank_behind blanks apart),
        words_append_of_blanks blanks, ih]
      rfl

/-- Splitting finds the words of any layout. -/
theorem WordLayout.words_eq (l : WordLayout s) : Text.words s = l.words := by
  conv_lhs => rw [l.text]
  rw [words_append_of_blanks l.blanks, words_joined l.spaced]
  rfl

/-! ## Uniqueness -/

/-- Every text can be laid out. -/
theorem exists_wordLayout (s : List Char) : Nonempty (WordLayout s) := by
  induction s with
  | nil => exact ⟨⟨[], [], blanks_nil, .nil, rfl⟩⟩
  | cons c s ih =>
      obtain ⟨lead, pieces, hlead, hspaced, htext⟩ := ih
      by_cases hc : isBlank c = true
      · -- one more blank in front
        refine ⟨⟨c :: lead, pieces, ?_, hspaced, by rw [htext, List.cons_append]⟩⟩
        intro d hd
        rcases List.mem_cons.1 hd with rfl | hd
        · exact hc
        · exact hlead d hd
      · have hsolid : isBlank c = false := by simpa using hc
        have hword : Word [c] := ⟨by simp, by simpa using hsolid⟩
        cases hspaced with
        | nil =>
            -- nothing but blanks follows: they stand behind the word
            refine ⟨⟨[], [([c], lead)], blanks_nil, .cons hword hlead (by simp) .nil, ?_⟩⟩
            simp [htext]
        | @cons x w ps word blanks apart rest =>
            cases lead with
            | nil =>
                -- the first word begins one character earlier
                have hlonger : Word (c :: x) := by
                  refine ⟨by simp, ?_⟩
                  intro d hd
                  rcases List.mem_cons.1 hd with rfl | hd
                  · exact hsolid
                  · exact word.solid d hd
                refine ⟨⟨[], (c :: x, w) :: ps, blanks_nil, .cons hlonger blanks apart rest, ?_⟩⟩
                simp [htext]
            | cons b lead =>
                -- a blank follows, so the character is a word of its own
                refine ⟨⟨[], ([c], b :: lead) :: (x, w) :: ps, blanks_nil,
                  .cons hword hlead (by simp) (.cons word blanks apart rest), ?_⟩⟩
                simp [htext]

/-- A run of blanks in front of a tight start is cut off in one way. -/
theorem Blanks.append_inj {v : List Char} (hv : Blanks v) (hw : Blanks w) (hs : TightStart s)
    (ht : TightStart t) (h : v ++ s = w ++ t) : v = w ∧ s = t := by
  refine ⟨?_, ?_⟩
  · rw [← takeWhile_run hv hs, h, takeWhile_run hw ht]
  · rw [← trimStart_append hv hs, h, trimStart_append hw ht]

/-- A word in front of a blank is cut off in one way. -/
theorem Word.append_inj {y : List Char} (hx : Word x) (hy : Word y)
    (hs : ∀ c ∈ s.head?, isBlank c = true) (ht : ∀ c ∈ t.head?, isBlank c = true)
    (h : x ++ s = y ++ t) : x = y ∧ s = t := by
  have hcut : splitWord (x ++ s) = splitWord (y ++ t) := by rw [h]
  rw [splitWord_append hx.solid hs, splitWord_append hy.solid ht] at hcut
  obtain rfl : x = y := congrArg Prod.fst hcut
  exact ⟨rfl, List.append_cancel_left h⟩

theorem Spaced.joined_inj (hps : Spaced ps) (hqs : Spaced qs) (h : joined ps = joined qs) :
    ps = qs := by
  -- word by word: the first words end at the same blank, and the blanks at the same next word
  induction hps generalizing qs with
  | nil =>
      cases hqs with
      | nil => rfl
      | cons word blanks apart rest => simp [word.nonempty] at h
  | @cons x w ps word blanks apart rest ih =>
      cases hqs with
      | nil => simp [word.nonempty] at h
      | @cons y v qs word' blanks' apart' rest' =>
          rw [joined_cons, joined_cons] at h
          obtain ⟨rfl, hbehind⟩ := word.append_inj word' (blank_behind blanks apart)
            (blank_behind blanks' apart') h
          obtain ⟨rfl, hrest⟩ := blanks.append_inj blanks' rest.tightStart rest'.tightStart hbehind
          rw [ih rest' hrest]

/-- A text has one layout only. -/
theorem WordLayout.eq (l l' : WordLayout s) : l = l' := by
  obtain ⟨lead, pieces, hlead, hspaced, htext⟩ := l
  obtain ⟨lead', pieces', hlead', hspaced', htext'⟩ := l'
  obtain ⟨rfl, hjoined⟩ := hlead.append_inj hlead' hspaced.tightStart hspaced'.tightStart
    (htext.symm.trans htext')
  obtain rfl := hspaced.joined_inj hspaced' hjoined
  rfl

/-- Blanks are what is filtered out. -/
theorem filter_blanks (hw : Blanks w) : (w.filter fun c => !isBlank c) = [] := by
  rw [List.filter_eq_nil_iff]
  intro c hc
  simp [hw c hc]

theorem Spaced.flatten_words (h : Spaced ps) :
    (ps.map Prod.fst).flatten = (joined ps).filter fun c => !isBlank c := by
  induction h with
  | nil => rfl
  | @cons x w ps word blanks apart rest ih =>
      have hx : (x.filter fun c => !isBlank c) = x := by
        rw [List.filter_eq_self]
        intro c hc
        simp [word.solid c hc]
      rw [joined_cons, List.filter_append, List.filter_append, hx, filter_blanks blanks, ← ih]
      rfl

/-- The words hold every character that is no blank, once and in its place. -/
theorem WordLayout.flatten_words (l : WordLayout s) :
    l.words.flatten = s.filter fun c => !isBlank c := by
  conv_rhs => rw [l.text]
  rw [List.filter_append, filter_blanks l.blanks]
  exact l.spaced.flatten_words

end CueScript.Text
