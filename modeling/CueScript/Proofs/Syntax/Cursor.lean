import CueScript.Proofs.Text.Runs
import CueScript.Syntax.Cursor

/-!
# CueScript.Proofs.Syntax.Cursor — what the steps of a cursor accept

Each step is described by what is left of the text before and after it:

1. **Passing**: `Passes` holds of two cursors with the piece of the text that lies between them.
2. **Blanks**: `skipBlanks` passes exactly the run of blanks at the cursor.
3. **Keywords**: `eatKeyword` accepts a keyword with a blank behind it, and nothing else.
4. **Tokens**: `readToken` accepts the written forms of a variable that `IsToken` lists, and passes
   as much as belongs to the token.
-/

namespace CueScript.Syntax

namespace Cursor

variable {c d e : Cursor} {k t w r : List Char}

/-! ## Passing -/

/-- The piece `w` stands at the first cursor, and the second one is the first one behind it. -/
structure Passes (c : Cursor) (w : List Char) (d : Cursor) : Prop where
  front : c.rest = w ++ d.rest
  moved : d = c.advance w.length

/-- Behind a passed piece of the text stands the rest of it. -/
theorem rest_advance_of_rest (h : c.rest = w ++ r) : (c.advance w.length).rest = r := by
  rw [rest_advance, h, List.drop_left]

/-- A piece that stands at the cursor can be passed. -/
theorem passes_of_rest (h : c.rest = w ++ r) : Passes c w (c.advance w.length) := by
  refine ⟨?_, rfl⟩
  rw [rest_advance_of_rest h]
  exact h

theorem passes_nil (c : Cursor) : Passes c [] c :=
  ⟨rfl, rfl⟩

@[simp] theorem length_rest (c : Cursor) : c.rest.length = c.text.length - c.pos := by
  rw [rest, List.length_drop]

theorem Passes.pos_eq (h : Passes c w d) : d.pos = c.pos + w.length := by
  rw [h.moved, advance]

/-- The second cursor is reached from the first one by passing what stands between them. -/
def Reaches (c d : Cursor) : Prop :=
  ∃ w, Passes c w d

theorem Passes.reaches (h : Passes c w d) : Reaches c d :=
  ⟨w, h⟩

theorem reaches_refl (c : Cursor) : Reaches c c :=
  (passes_nil c).reaches

theorem Reaches.trans (h : Reaches c d) (h' : Reaches d e) : Reaches c e := by
  rcases h with ⟨v, hv⟩
  rcases h' with ⟨w, hw⟩
  refine ⟨v ++ w, ?_, ?_⟩
  · rw [hv.front, hw.front, List.append_assoc]
  · rw [hw.moved, hv.moved, advance, advance, advance, List.length_append, Nat.add_assoc]

theorem Reaches.text_eq (h : Reaches c d) : d.text = c.text := by
  rcases h with ⟨w, hw⟩
  rw [hw.moved, advance]

/-- The position never goes back. -/
theorem Reaches.le_pos (h : Reaches c d) : c.pos ≤ d.pos := by
  rcases h with ⟨w, hw⟩
  rw [hw.pos_eq]
  exact Nat.le_add_right c.pos w.length

/-- A passed piece is part of the text, so the position stays in the text or where it was. -/
theorem Reaches.pos_le (h : Reaches c d) : d.pos ≤ max c.pos c.text.length := by
  rcases h with ⟨w, hw⟩
  have hlength := congrArg List.length hw.front
  rw [List.length_append, length_rest] at hlength
  rw [hw.pos_eq]
  omega

/-! ## Blanks -/

/-- The run of blanks is passed up to where the text goes on without a blank. -/
theorem skipBlanks_eq_advance (hw : Text.Blanks w) (hr : Text.TightStart r) (h : c.rest = w ++ r) :
    c.skipBlanks = (!w.isEmpty, c.advance w.length) := by
  rw [skipBlanks, h, Text.takeWhile_run hw hr]

/-- The run of blanks ends where the text goes on without a blank. -/
theorem skipBlanks_of_rest (hw : Text.Blanks w) (hr : Text.TightStart r) (h : c.rest = w ++ r) :
    ∃ d, c.skipBlanks = (!w.isEmpty, d) ∧ d.rest = r :=
  ⟨c.advance w.length, skipBlanks_eq_advance hw hr h, rest_advance_of_rest h⟩

/-- A run of blanks is passed, with a report whether it held any. -/
theorem passes_skipBlanks (c : Cursor) :
    ∃ w, Text.Blanks w ∧ Passes c w c.skipBlanks.2 ∧
      Text.TightStart c.skipBlanks.2.rest ∧ (c.skipBlanks.1 = true ↔ w ≠ []) := by
  rcases Text.exists_trimStart c.rest with ⟨w, hw, hsplit, ht⟩
  rw [skipBlanks_eq_advance hw ht hsplit]
  refine ⟨w, hw, passes_of_rest hsplit, ?_, ?_⟩
  · rw [rest_advance_of_rest hsplit]
    exact ht
  · simp

theorem reaches_skipBlanks (c : Cursor) : Reaches c c.skipBlanks.2 := by
  rcases passes_skipBlanks c with ⟨w, -, hpassed, -⟩
  exact hpassed.reaches

/-- What is left behind a run of blanks starts without one. -/
theorem exists_skipBlanks (c : Cursor) :
    ∃ w, Text.Blanks w ∧ c.rest = w ++ c.skipBlanks.2.rest ∧
      Text.TightStart c.skipBlanks.2.rest ∧ (c.skipBlanks.1 = true ↔ w ≠ []) := by
  rcases passes_skipBlanks c with ⟨w, hw, hpassed, ht, hany⟩
  exact ⟨w, hw, hpassed.front, ht, hany⟩

/-! ## Keywords -/

/-- A keyword is passed exactly when a blank stands behind it. -/
theorem eatKeyword_eq_true_iff :
    c.eatKeyword k = (true, d) ↔
      ∃ b r, Text.isBlank b = true ∧ c.rest = k ++ b :: r ∧ d = c.advance k.length := by
  rw [eatKeyword]
  constructor
  · intro h
    split at h
    · next b r heq =>
      have hsplit := List.append_eq_of_isPrefixOf?_eq_some heq
      split at h
      · next hb => exact ⟨b, r, hb, hsplit.symm, (Prod.mk.inj h).2.symm⟩
      · simp at h
    · simp at h
  · rintro ⟨b, r, hb, hrest, rfl⟩
    have heq : k.isPrefixOf? c.rest = some (b :: r) :=
      List.isPrefixOf?_eq_some_iff_append_eq.2 hrest.symm
    rw [heq]
    simp [hb]

theorem eatKeyword_answer_iff :
    (c.eatKeyword k).1 = true ↔ ∃ b r, Text.isBlank b = true ∧ c.rest = k ++ b :: r := by
  constructor
  · intro heaten
    have hpair : c.eatKeyword k = (true, (c.eatKeyword k).2) := Prod.ext heaten rfl
    obtain ⟨b, r, hb, hrest, -⟩ := eatKeyword_eq_true_iff.1 hpair
    exact ⟨b, r, hb, hrest⟩
  · rintro ⟨b, r, hb, hrest⟩
    rw [eatKeyword_eq_true_iff.2 ⟨b, r, hb, hrest, rfl⟩]

/-- A keyword that is not eaten leaves the cursor where it is. -/
theorem eatKeyword_of_refused (h : (c.eatKeyword k).1 = false) : (c.eatKeyword k).2 = c := by
  revert h
  rw [eatKeyword]
  split
  · split
    · simp
    · simp
  · simp

/-- An eaten keyword was passed, and a blank is next. -/
theorem passes_eatKeyword (h : (c.eatKeyword k).1 = true) : Passes c k (c.eatKeyword k).2 := by
  have heaten : c.eatKeyword k = (true, (c.eatKeyword k).2) := Prod.ext h rfl
  obtain ⟨b, r, -, hrest, hmoved⟩ := eatKeyword_eq_true_iff.1 heaten
  rw [hmoved]
  exact passes_of_rest hrest

theorem reaches_eatKeyword (k : List Char) (c : Cursor) : Reaches c (c.eatKeyword k).2 := by
  cases heaten : (c.eatKeyword k).1 with
  | true => exact (passes_eatKeyword heaten).reaches
  | false =>
      rw [eatKeyword_of_refused heaten]
      exact reaches_refl c

/-- A keyword with a blank behind it is passed; the blank is left. -/
theorem eatKeyword_of_rest {b : Char} (hb : Text.isBlank b = true) (h : c.rest = k ++ b :: r) :
    ∃ d, c.eatKeyword k = (true, d) ∧ d.rest = b :: r :=
  ⟨c.advance k.length, eatKeyword_eq_true_iff.2 ⟨b, r, hb, h, rfl⟩, rest_advance_of_rest h⟩

end Cursor

/-! ## Tokens -/

/-- The written forms of a variable in a loop header: braces around any characters but `}`, or a run
without blanks and commas that does not open a brace. Neither may be empty. -/
inductive IsToken : List Char → Prop where
  | braced {b : List Char} (nonempty : b ≠ []) (closed : '}' ∉ b) :
      IsToken ('$' :: '{' :: (b ++ ['}']))
  | plain {r : List Char} (nonempty : r ≠ []) (run : ∀ c ∈ r, Text.isBlank c = false ∧ c ≠ ',')
      (unbraced : r.head? ≠ some '{') : IsToken ('$' :: r)

/-- A token opens with `$`. -/
theorem IsToken.exists_cons {t : List Char} (ht : IsToken t) : ∃ inner, t = '$' :: inner := by
  cases ht with
  | braced nonempty closed => exact ⟨_, rfl⟩
  | plain nonempty run unbraced => exact ⟨_, rfl⟩

/-- No blank stands at the ends of a token; braces may hold some inside. -/
theorem IsToken.tight {t : List Char} (ht : IsToken t) : Text.Tight t := by
  cases ht with
  | @braced b nonempty closed =>
      refine ⟨Text.tightStart_cons.2 (by decide), ?_⟩
      rw [← List.cons_append, ← List.cons_append]
      exact Text.tightEnd_append_singleton.2 (by decide)
  | @plain r nonempty run unbraced =>
      refine ⟨Text.tightStart_cons.2 (by decide), ?_⟩
      rw [← List.singleton_append, Text.tightEnd_append nonempty]
      intro c hc
      exact (run c (List.mem_of_mem_getLast? hc)).1

namespace Cursor

variable {c d : Cursor} {s t r : List Char}

theorem isTokenChar_iff {x : Char} : isTokenChar x = true ↔ Text.isBlank x = false ∧ x ≠ ',' := by
  simp [isTokenChar]

/-- The test that the cursor makes decides which runs are tokens. -/
theorem isToken_of_all {n : List Char} (hne : n ≠ []) (hrun : n.all isTokenChar = true)
    (hbrace : n.head? ≠ some '{') : IsToken ('$' :: n) := by
  refine .plain hne ?_ hbrace
  intro x hx
  exact isTokenChar_iff.1 (List.all_eq_true.1 hrun x hx)

/-- What the token reader accepts is a token at the front of the text. A token without braces
reaches as far as its run does. -/
theorem isToken_of_tokenAt? (h : tokenAt? s = some t) :
    IsToken t ∧ ∃ r, s = t ++ r ∧
      ((∃ b, t = '$' :: '{' :: b) ∨ ∀ x ∈ r.head?, isTokenChar x = false) := by
  unfold tokenAt? at h
  split at h
  · next inner =>
    -- braces: the group ends at the first `}`, which must be there
    dsimp only at h
    split at h
    · next hc =>
      obtain ⟨hlt, hne⟩ := hc
      obtain rfl := Option.some.inj h
      have hbody : '}' ∉ inner.takeWhile (· != '}') := by
        intro hmem
        simpa using List.mem_takeWhile_imp hmem
      rcases Text.exists_behind_run hlt with ⟨x, r, hx, hsplit⟩
      obtain rfl : x = '}' := by simpa using hx
      refine ⟨.braced hne hbody, r, ?_, .inl ⟨_, rfl⟩⟩
      conv_lhs => rw [hsplit]
      simp
    · simp at h
  · next inner hbrace =>
    -- no braces: the run ends at a blank, a comma or the end of the text
    dsimp only at h
    split at h
    · next hne =>
      obtain rfl := Option.some.inj h
      have hsplit := List.takeWhile_append_dropWhile (p := isTokenChar) (l := inner)
      refine ⟨.plain hne ?_ ?_, inner.dropWhile isTokenChar, ?_, .inr ?_⟩
      · intro x hx
        exact isTokenChar_iff.1 (List.mem_takeWhile_imp hx)
      · rw [List.head?_takeWhile]
        cases inner with
        | nil => simp
        | cons x inner =>
            intro hx
            have hx' : x = '{' := by
              simpa using (Option.filter_eq_some_iff.1 hx).1
            exact hbrace inner (by rw [hx'])
      · rw [List.cons_append, hsplit]
      · exact Text.head?_dropWhile isTokenChar inner
    · simp at h
  · simp at h

/-- A token in braces is read up to its first `}`, whatever follows. -/
theorem tokenAt?_braced {b : List Char} (nonempty : b ≠ []) (closed : '}' ∉ b) :
    tokenAt? ('$' :: '{' :: (b ++ '}' :: r)) = some ('$' :: '{' :: (b ++ ['}'])) := by
  have hbody : (b ++ '}' :: r).takeWhile (· != '}') = b := by
    apply Text.takeWhile_run
    · intro x hx
      have hne : x ≠ '}' := fun he => closed (he ▸ hx)
      simpa using hne
    · simp
  simp only [tokenAt?, hbody]
  simp [nonempty]

/-- Without braces the run behind the `$` is the token. -/
theorem tokenAt?_plain {inner : List Char} (unbraced : inner.head? ≠ some '{') :
    tokenAt? ('$' :: inner) = if inner.takeWhile isTokenChar ≠ [] then
      some ('$' :: inner.takeWhile isTokenChar) else none := by
  rw [tokenAt?]
  rintro r rfl
  exact unbraced rfl

/-- A text without a `$` in front starts with no token. -/
theorem tokenAt?_of_head?_ne (h : s.head? ≠ some '$') : tokenAt? s = none := by
  cases s with
  | nil => rfl
  | cons x s =>
      have hx : x ≠ '$' := by simpa using h
      simp [tokenAt?, hx]

/-- A token is read whole when no further character of a run follows it. -/
theorem tokenAt?_append (ht : IsToken t) (hr : ∀ x ∈ r.head?, isTokenChar x = false) :
    tokenAt? (t ++ r) = some t := by
  cases ht with
  | @braced b nonempty closed =>
      rw [List.cons_append, List.cons_append, List.append_assoc]
      exact tokenAt?_braced nonempty closed
  | @plain n nonempty run unbraced =>
      have hbody : (n ++ r).takeWhile isTokenChar = n := by
        apply Text.takeWhile_run
        · intro x hx
          exact isTokenChar_iff.2 (run x hx)
        · exact hr
      have hhead : (n ++ r).head? ≠ some '{' := by
        rw [List.head?_append_of_ne_nil n nonempty]
        exact unbraced
      rw [List.cons_append, tokenAt?_plain hhead, hbody, if_pos nonempty]

/-- A token that goes up to where `r` starts: braces end it, and a run without them is as long as it
can be. -/
structure TokenBefore (t r : List Char) : Prop where
  token : IsToken t
  longest : (∃ b, t = '$' :: '{' :: b) ∨ ∀ x ∈ r.head?, isTokenChar x = false

/-- A text starts with at most one token, and it is the one that the reader finds. -/
theorem tokenAt?_eq_some_iff : tokenAt? s = some t ↔ ∃ r, s = t ++ r ∧ TokenBefore t r := by
  constructor
  · intro h
    obtain ⟨ht, r, hsplit, hlongest⟩ := isToken_of_tokenAt? h
    exact ⟨r, hsplit, ht, hlongest⟩
  · rintro ⟨r, rfl, ht, ⟨b, hbraced⟩ | hrun⟩
    · cases ht with
      | @braced b nonempty closed =>
          rw [List.cons_append, List.cons_append, List.append_assoc]
          exact tokenAt?_braced nonempty closed
      | plain nonempty run unbraced =>
          rw [List.cons.injEq] at hbraced
          rw [hbraced.2] at unbraced
          exact absurd rfl unbraced
    · exact tokenAt?_append ht hrun

/-- A read token is what the cursor has passed. -/
theorem readToken_eq_some_iff :
    c.readToken = (some t, d) ↔ tokenAt? c.rest = some t ∧ d = c.advance t.length := by
  rw [readToken]
  split
  · next token heq =>
    rw [heq, Prod.mk.injEq, Option.some.injEq]
    constructor
    · rintro ⟨rfl, rfl⟩
      exact ⟨rfl, rfl⟩
    · rintro ⟨rfl, rfl⟩
      exact ⟨rfl, rfl⟩
  · next heq => simp [heq]

theorem readToken_answer (c : Cursor) : c.readToken.1 = tokenAt? c.rest := by
  rw [readToken]
  split
  · next token heq => rw [heq]
  · next heq => rw [heq]

/-- Where no token is read the cursor stays. -/
theorem readToken_of_refused (h : c.readToken.1 = none) : c.readToken.2 = c := by
  revert h
  rw [readToken]
  split
  · simp
  · simp

/-- What is read is a token, and the cursor has passed it. -/
theorem passes_readToken (h : c.readToken = (some t, d)) : IsToken t ∧ Passes c t d := by
  obtain ⟨htoken, rfl⟩ := readToken_eq_some_iff.1 h
  obtain ⟨ht, r, hsplit, -⟩ := isToken_of_tokenAt? htoken
  exact ⟨ht, passes_of_rest hsplit⟩

theorem reaches_readToken (c : Cursor) : Reaches c c.readToken.2 := by
  cases hread : c.readToken.1 with
  | none =>
      rw [readToken_of_refused hread]
      exact reaches_refl c
  | some t =>
      have hpair : c.readToken = (some t, c.readToken.2) := Prod.ext hread rfl
      exact (passes_readToken hpair).2.reaches

/-- Behind a read token stands the rest of the text. -/
theorem isToken_of_readToken (h : c.readToken = (some t, d)) :
    IsToken t ∧ c.rest = t ++ d.rest := by
  obtain ⟨ht, hpassed⟩ := passes_readToken h
  exact ⟨ht, hpassed.front⟩

/-- A token is passed whole when no further character of a run follows it. -/
theorem readToken_of_rest (ht : IsToken t) (hr : ∀ x ∈ r.head?, isTokenChar x = false)
    (h : c.rest = t ++ r) : ∃ d, c.readToken = (some t, d) ∧ d.rest = r := by
  refine ⟨c.advance t.length, readToken_eq_some_iff.2 ⟨?_, rfl⟩, rest_advance_of_rest h⟩
  rw [h]
  exact tokenAt?_append ht hr

end Cursor

end CueScript.Syntax
