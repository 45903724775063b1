import CueScript.Proofs.Except
import CueScript.Proofs.Syntax.Cursor
import CueScript.Syntax.LoopHeader

/-!
# CueScript.Proofs.Syntax.Scan — the cursor as loops over positions

A cursor takes runs and prefixes off the rest of a text. Here the same steps are loops over
positions that read one character at a time, as a scanner performs them. A position without a
character and a slice that does not fit are errors of their own, so that an answer shows that
neither was asked for.

1. **Access**: `charAt` and `slice` fail outside the text; `text[i]?` asks and cannot fail.
2. **Loops**: the three steps and the reader of headers, written with these.
3. **Loops end**: where each loop stops, and that it reads inside the text.
4. **Steps**: each step gives what the step of the cursor gives.
5. **Headers**: so does the reader of headers, because its cursor never leaves the text.
-/

namespace CueScript.Syntax

/-! ## Access -/

/-- An access to a part that a text of the given length does not have. -/
inductive OutOfBounds where
  | char (pos length : Nat)
  | slice (start stop length : Nat)
deriving Repr, DecidableEq

namespace Scan

def charAt (text : List Char) (i : Nat) : Except OutOfBounds Char :=
  match text[i]? with
  | some c => .ok c
  | none => .error (.char i text.length)

/-- The characters from one position up to another one. -/
def slice (text : List Char) (i j : Nat) : Except OutOfBounds (List Char) :=
  if i ≤ j ∧ j ≤ text.length then .ok ((text.drop i).take (j - i))
  else .error (.slice i j text.length)

/-! ## Loops -/

/-- The first position from `i` on that holds no character of the class; the length of the text when
the class holds to its end. -/
def runEnd (p : Char → Bool) (text : List Char) (i : Nat) : Except OutOfBounds Nat :=
  if i < text.length then do
    if p (← charAt text i) then runEnd p text (i + 1) else return i
  else return i
termination_by text.length - i

/-- The position behind a keyword that stands at `i`. -/
def keywordEnd (text : List Char) : List Char → Nat → Except OutOfBounds (Option Nat)
  | [], i => return some i
  | k :: ks, i => do
    if i < text.length then
      if (← charAt text i) = k then keywordEnd text ks (i + 1) else return none
    else return none

/-- The position behind the group or the run that starts at a `$`; a group must be closed. -/
def tokenEnd (c : Cursor) : Except OutOfBounds (Option Nat) := do
  if c.text[c.pos + 1]? = some '{' then
    let stop ← runEnd (· != '}') c.text (c.pos + 1)
    return if stop < c.text.length then some (stop + 1) else none
  else
    let stop ← runEnd Cursor.isTokenChar c.text (c.pos + 1)
    return some stop

/-- Passes all blanks; tells whether the position moved. -/
def skipBlanks (c : Cursor) : Except OutOfBounds (Bool × Cursor) := do
  let stop ← runEnd Text.isBlank c.text c.pos
  return (decide (c.pos < stop), ⟨c.text, stop⟩)

/-- Passes a keyword with a blank behind it. -/
def eatKeyword (keyword : List Char) (c : Cursor) : Except OutOfBounds (Bool × Cursor) := do
  let some stop ← keywordEnd c.text keyword c.pos | return (false, c)
  if stop < c.text.length then
    if Text.isBlank (← charAt c.text stop) then return (true, ⟨c.text, stop⟩) else return (false, c)
  else return (false, c)

/-- Passes a variable token; one that names nothing is refused when it has been cut out. -/
def readToken (c : Cursor) : Except OutOfBounds (Option (List Char) × Cursor) := do
  if c.text[c.pos]? = some '$' then
    let some stop ← tokenEnd c | return (none, c)
    let token ← slice c.text c.pos stop
    if token = ['$'] ∨ token = ['$', '{', '}'] then return (none, c)
    else return (some token, ⟨c.text, stop⟩)
  else return (none, c)

/-- Reads a second token when a comma is at the cursor. -/
def secondToken (spaced : Bool) (c : Cursor) :
    Except OutOfBounds (Option (Option (List Char) × Bool × Cursor)) := do
  if c.text[c.pos]? = some ',' then
    let (_, c) ← skipBlanks (c.advance 1)
    let (some token, c) ← readToken c | return none
    return some (some token, ← skipBlanks c)
  else return some (none, spaced, c)

/-- Cuts a header into its pieces. The expression is the slice from the last position to the end. -/
def headerPieces (header : List Char) : Except OutOfBounds (Option HeaderPieces) := do
  let (_, c) ← skipBlanks (.start header)
  let (true, c) ← eatKeyword ['f', 'o', 'r'] c | return none
  let (_, c) ← skipBlanks c
  let (some first, c) ← readToken c | return none
  let (spaced, c) ← skipBlanks c
  let some (second, spaced, c) ← secondToken spaced c | return none
  let true := spaced | return none
  let (true, c) ← eatKeyword ['i', 'n'] c | return none
  let (_, c) ← skipBlanks c
  let expression := Text.trimEnd (← slice c.text c.pos c.text.length)
  return if expression.isEmpty then none else some ⟨first, second, expression⟩

/-! ## Loops end -/

variable {text r : List Char} {x : Char} {i : Nat} {c d : Cursor}

/-- A character is read where the rest of the text starts with it. -/
theorem charAt_of_drop (h : text.drop i = x :: r) : i < text.length ∧ charAt text i = .ok x := by
  have hread : text[i]? = some x := by
    rw [← List.head?_drop, h, List.head?_cons]
  refine ⟨(List.getElem?_eq_some_iff.1 hread).1, ?_⟩
  rw [charAt, hread]

/-- The rest of a text behind one of its characters. -/
theorem drop_succ_of_drop (h : text.drop i = x :: r) : text.drop (i + 1) = r := by
  rw [← List.drop_drop, h, List.drop_one, List.tail_cons]

/-- A loop over a class passes the run at its start. -/
theorem runEnd_eq (p : Char → Bool) (text : List Char) (i : Nat) :
    runEnd p text i = .ok (i + ((text.drop i).takeWhile p).length) := by
  generalize hs : text.drop i = s
  induction s generalizing i with
  | nil =>
      have hend : ¬ i < text.length := Nat.not_lt.2 (List.drop_eq_nil_iff.1 hs)
      simp [runEnd, hend, Except.pure_eq_ok]
  | cons x r ih =>
      obtain ⟨hlt, hread⟩ := charAt_of_drop hs
      rw [runEnd, if_pos hlt, hread, Except.ok_bind]
      cases hp : p x with
      | true =>
          have hrest := ih (i + 1) (drop_succ_of_drop hs)
          simp [hp, hrest, Nat.add_assoc, Nat.add_comm 1]
      | false => simp [hp, Except.pure_eq_ok]

/-- A loop over a keyword stops behind it, if it stands there. -/
theorem keywordEnd_eq (text k : List Char) (i : Nat) :
    keywordEnd text k i = .ok ((k.isPrefixOf? (text.drop i)).map fun _ => i + k.length) := by
  induction k generalizing i with
  | nil => simp [keywordEnd, Except.pure_eq_ok, List.isPrefixOf?]
  | cons y k ih =>
      cases hs : text.drop i with
      | nil =>
          have hend : ¬ i < text.length := Nat.not_lt.2 (List.drop_eq_nil_iff.1 hs)
          simp [keywordEnd, hend, Except.pure_eq_ok, List.isPrefixOf?]
      | cons x r =>
          obtain ⟨hlt, hread⟩ := charAt_of_drop hs
          have hrest := ih (i + 1)
          rw [drop_succ_of_drop hs] at hrest
          rw [keywordEnd, if_pos hlt, hread, Except.ok_bind]
          by_cases hxy : x = y
          · simp [hxy, hrest, List.isPrefixOf?, Nat.add_assoc, Nat.add_comm 1]
          · have hyx : y ≠ x := fun h => hxy h.symm
            simp [hxy, hyx, Except.pure_eq_ok, List.isPrefixOf?]

/-! ## Steps -/

/-- The next character, if there is one. -/
theorem text_getElem?_pos (c : Cursor) : c.text[c.pos]? = c.rest.head? := by
  rw [Cursor.rest, List.head?_drop]

theorem skipBlanks_eq (c : Cursor) : skipBlanks c = .ok c.skipBlanks := by
  rw [skipBlanks, runEnd_eq, Except.ok_bind, Except.pure_eq_ok, ← Cursor.rest]
  cases hw : c.rest.takeWhile Text.isBlank with
  | nil => simp [Cursor.skipBlanks, Cursor.advance, hw]
  | cons x w => simp [Cursor.skipBlanks, Cursor.advance, hw]

theorem eatKeyword_eq (k : List Char) (c : Cursor) : eatKeyword k c = .ok (c.eatKeyword k) := by
  rw [eatKeyword, keywordEnd_eq, Except.ok_bind, ← Cursor.rest, Cursor.eatKeyword]
  cases hk : k.isPrefixOf? c.rest with
  | none => simp [Except.pure_eq_ok]
  | some r =>
      -- the keyword is there; what is left behind it decides
      have hdrop : c.text.drop (c.pos + k.length) = r :=
        Cursor.rest_advance_of_rest (List.append_eq_of_isPrefixOf?_eq_some hk).symm
      cases r with
      | nil =>
          have hend : ¬ c.pos + k.length < c.text.length :=
            Nat.not_lt.2 (List.drop_eq_nil_iff.1 hdrop)
          simp [hend, Except.pure_eq_ok]
      | cons x r =>
          obtain ⟨hlt, hread⟩ := charAt_of_drop hdrop
          cases hx : Text.isBlank x with
          | true => simp [hlt, hread, hx, Except.ok_bind, Except.pure_eq_ok, Cursor.advance]
          | false => simp [hlt, hread, hx, Except.ok_bind, Except.pure_eq_ok]

/-- The characters that a cursor passes are a slice of its text. -/
theorem slice_of_rest {w : List Char} (hpos : c.pos ≤ c.text.length) (h : c.rest = w ++ r) :
    slice c.text c.pos (c.pos + w.length) = .ok w := by
  have hlength : w.length + r.length = c.text.length - c.pos := by
    rw [← List.length_append, ← h, Cursor.length_rest]
  have hfits : c.pos ≤ c.pos + w.length ∧ c.pos + w.length ≤ c.text.length := by omega
  rw [slice, if_pos hfits, Nat.add_sub_cancel_left, ← Cursor.rest, h, List.take_left]

/-- The group that opens behind a `$` ends behind its first `}`; without one it has no end. -/
theorem tokenEnd_braced {inner : List Char} (h : c.rest = '$' :: '{' :: inner) :
    tokenEnd c = .ok (if (inner.takeWhile (· != '}')).length < inner.length then
      some (c.pos + ((inner.takeWhile (· != '}')).length + 3)) else none) := by
  have hnext : c.text.drop (c.pos + 1) = '{' :: inner := drop_succ_of_drop h
  have hbrace : c.text[c.pos + 1]? = some '{' := by
    rw [← List.head?_drop, hnext, List.head?_cons]
  have hlength : c.text.length = c.pos + 2 + inner.length := by
    have hlt := (charAt_of_drop hnext).1
    have hrest := congrArg List.length hnext
    rw [List.length_drop, List.length_cons] at hrest
    omega
  -- the loop starts at the brace that opens the group, which is in the class itself
  have hrun : ('{' :: inner).takeWhile (· != '}') = '{' :: inner.takeWhile (· != '}') := by
    simp
  rw [tokenEnd, if_pos hbrace, runEnd_eq, hnext, hrun, Except.ok_bind, Except.pure_eq_ok,
    List.length_cons, hlength]
  congr 1
  have hinside : c.pos + 1 + ((inner.takeWhile (· != '}')).length + 1) < c.pos + 2 + inner.length ↔
      (inner.takeWhile (· != '}')).length < inner.length := by omega
  simp only [hinside]
  split
  · rw [Option.some.injEq]
    omega
  · rfl

/-- A run behind a `$` ends where a blank, a comma or the end of the text is. -/
theorem tokenEnd_plain {inner : List Char} (h : c.rest = '$' :: inner)
    (unbraced : inner.head? ≠ some '{') :
    tokenEnd c = .ok (some (c.pos + ((inner.takeWhile Cursor.isTokenChar).length + 1))) := by
  have hnext : c.text.drop (c.pos + 1) = inner := drop_succ_of_drop h
  have hbrace : ¬ c.text[c.pos + 1]? = some '{' := by
    rw [← List.head?_drop, hnext]
    exact unbraced
  rw [tokenEnd, if_neg hbrace, runEnd_eq, hnext, Except.ok_bind, Except.pure_eq_ok, Nat.add_assoc,
    Nat.add_comm 1]

/-- When the end of a token is found, its text decides: what names nothing is refused. -/
theorem readToken_of_tokenEnd {t : List Char} (hdollar : c.text[c.pos]? = some '$')
    (h : c.rest = t ++ r) (hend : tokenEnd c = .ok (some (c.pos + t.length))) :
    readToken c = .ok (if t = ['$'] ∨ t = ['$', '{', '}'] then (none, c)
      else (some t, c.advance t.length)) := by
  have hpos : c.pos ≤ c.text.length := Nat.le_of_lt (List.getElem?_eq_some_iff.1 hdollar).1
  rw [readToken, if_pos hdollar, hend, Except.ok_bind]
  dsimp only
  rw [slice_of_rest hpos h, Except.ok_bind, Except.pure_eq_ok, Except.pure_eq_ok, Cursor.advance]
  split <;> rfl

/-- A group is read as the cursor reads it. -/
theorem readToken_of_braced {inner : List Char} (h : c.rest = '$' :: '{' :: inner) :
    readToken c = .ok c.readToken := by
  have hdollar : c.text[c.pos]? = some '$' := by rw [text_getElem?_pos, h, List.head?_cons]
  have hend := tokenEnd_braced h
  by_cases hlt : (inner.takeWhile (· != '}')).length < inner.length
  · rcases Text.exists_behind_run hlt with ⟨x, r, hx, hsplit⟩
    obtain rfl : x = '}' := by simpa using hx
    generalize hbody : inner.takeWhile (· != '}') = b at hend hlt hsplit
    have hpassed : c.rest = ('$' :: '{' :: (b ++ ['}'])) ++ r := by
      rw [h, hsplit]
      simp
    have hlength : ('$' :: '{' :: (b ++ ['}'])).length = b.length + 3 := by simp
    rw [if_pos hlt, ← hlength] at hend
    rw [readToken_of_tokenEnd hdollar hpassed hend, Cursor.readToken, h, Cursor.tokenAt?, hbody]
    cases b with
    | nil => simp
    | cons y b =>
        have hclosed : b.length + 1 < inner.length := hlt
        simp [hclosed]
  · rw [readToken, if_pos hdollar, hend, if_neg hlt]
    simp [Cursor.readToken, h, Cursor.tokenAt?, hlt, Except.ok_bind, Except.pure_eq_ok]

/-- A run is read as the cursor reads it. -/
theorem readToken_of_plain {inner : List Char} (h : c.rest = '$' :: inner)
    (unbraced : inner.head? ≠ some '{') : readToken c = .ok c.readToken := by
  have hdollar : c.text[c.pos]? = some '$' := by rw [text_getElem?_pos, h, List.head?_cons]
  have hend := tokenEnd_plain h unbraced
  have hsplit : c.rest = ('$' :: inner.takeWhile Cursor.isTokenChar) ++
      inner.dropWhile Cursor.isTokenChar := by
    rw [h, List.cons_append, List.takeWhile_append_dropWhile]
  have hhead : ∀ y ∈ (inner.takeWhile Cursor.isTokenChar).head?, y ≠ '{' := by
    intro y hy hbrace
    rw [List.head?_takeWhile, hbrace] at hy
    exact unbraced (Option.filter_eq_some_iff.1 hy).1
  rw [readToken_of_tokenEnd hdollar hsplit hend, Cursor.readToken, h,
    Cursor.tokenAt?_plain unbraced]
  cases hbody : inner.takeWhile Cursor.isTokenChar with
  | nil => simp
  | cons y b =>
      rw [hbody] at hhead
      have hy : y ≠ '{' := hhead y rfl
      simp [hy]

theorem readToken_eq (c : Cursor) : readToken c = .ok c.readToken := by
  -- the cases are those of the reader: a group, a run, and no `$`
  by_cases hdollar : c.rest.head? = some '$'
  · obtain ⟨inner, hrest⟩ := List.head?_eq_some_iff.1 hdollar
    by_cases hbrace : inner.head? = some '{'
    · obtain ⟨inner, rfl⟩ := List.head?_eq_some_iff.1 hbrace
      exact readToken_of_braced hrest
    · exact readToken_of_plain hrest hbrace
  · rw [readToken, text_getElem?_pos, if_neg hdollar, Except.pure_eq_ok, Cursor.readToken,
      Cursor.tokenAt?_of_head?_ne hdollar]

/-! ## Headers -/

theorem secondToken_eq (spaced : Bool) (c : Cursor) :
    secondToken spaced c = .ok (secondToken? spaced c) := by
  rw [secondToken, secondToken?, text_getElem?_pos]
  by_cases hcomma : c.rest.head? = some ','
  · obtain ⟨r, hrest⟩ := List.head?_eq_some_iff.1 hcomma
    rw [hrest, List.head?_cons, if_pos rfl, skipBlanks_eq, Except.ok_bind]
    dsimp only
    rw [readToken_eq, Except.ok_bind]
    rcases hread : (c.advance 1).skipBlanks.2.readToken with ⟨_ | token, d⟩
    · rfl
    · simp only [skipBlanks_eq]
      rfl
  · rw [if_neg hcomma]
    split
    · next r hrest => exact absurd (by rw [hrest, List.head?_cons]) hcomma
    · rfl

/-- A second token is reached by passing what stands in front of it. -/
theorem reaches_secondToken? {spaced spaced' : Bool} {second : Option (List Char)}
    (h : secondToken? spaced c = some (second, spaced', d)) : Cursor.Reaches c d := by
  rw [secondToken?] at h
  split at h
  · next r hcomma =>
    have hpassed : Cursor.Passes c [','] (c.advance 1) := Cursor.passes_of_rest hcomma
    have hskipped := hpassed.reaches.trans (Cursor.reaches_skipBlanks (c.advance 1))
    have hread := hskipped.trans (Cursor.reaches_readToken (c.advance 1).skipBlanks.2)
    split at h
    · next token e heq =>
      rw [heq] at hread
      simp only [Option.some.injEq, Prod.mk.injEq] at h
      have hlast := hread.trans (Cursor.reaches_skipBlanks e)
      rw [h.2] at hlast
      exact hlast
    · simp at h
  · simp only [Option.some.injEq, Prod.mk.injEq] at h
    rw [h.2.2]
    exact Cursor.reaches_refl d

/-- The slice that is left at the end of a text is what is left of it, if the cursor is in it. -/
theorem slice_to_end (hpos : c.pos ≤ c.text.length) :
    slice c.text c.pos c.text.length = .ok c.rest := by
  have hslice := slice_of_rest hpos (List.append_nil c.rest).symm
  have hend : c.pos + c.rest.length = c.text.length := by
    rw [Cursor.length_rest]
    omega
  rw [hend] at hslice
  exact hslice

/-- The reader of headers stays inside its text. -/
theorem headerPieces_eq (header : List Char) :
    headerPieces header = .ok (headerPieces? header) := by
  rw [headerPieces, headerPieces?]
  simp only [skipBlanks_eq, eatKeyword_eq, readToken_eq, secondToken_eq, Except.ok_bind]
  -- all cursors are reached from the first one, so the slice at the end starts inside the text
  have hpadding := Cursor.reaches_skipBlanks (.start header)
  have hkeyword := hpadding.trans (Cursor.reaches_eatKeyword ['f', 'o', 'r'] _)
  rcases hfor : (Cursor.start header).skipBlanks.2.eatKeyword ['f', 'o', 'r'] with ⟨_ | _, c₁⟩
  · rfl
  rw [hfor] at hkeyword
  dsimp only
  have htoken := (hkeyword.trans (Cursor.reaches_skipBlanks c₁)).trans (Cursor.reaches_readToken _)
  rcases hfirst : c₁.skipBlanks.2.readToken with ⟨_ | first, c₂⟩
  · rfl
  rw [hfirst] at htoken
  dsimp only
  have hgap := htoken.trans (Cursor.reaches_skipBlanks c₂)
  rcases hsecond : secondToken? c₂.skipBlanks.1 c₂.skipBlanks.2 with _ | ⟨second, spaced, c₃⟩
  · rfl
  have hvars := hgap.trans (reaches_secondToken? hsecond)
  cases spaced with
  | false => rfl
  | true =>
      simp only [Bool.true_and, Option.bind_eq_bind, Option.bind_some]
      have hin := hvars.trans (Cursor.reaches_eatKeyword ['i', 'n'] c₃)
      rcases heaten : c₃.eatKeyword ['i', 'n'] with ⟨_ | _, c₄⟩
      · rfl
      rw [heaten] at hin
      dsimp only
      have hlast := hin.trans (Cursor.reaches_skipBlanks c₄)
      have hinside : c₄.skipBlanks.2.pos ≤ c₄.skipBlanks.2.text.length := by
        rw [hlast.text_eq]
        simpa [Cursor.start] using hlast.pos_le
      rw [slice_to_end hinside, Except.ok_bind]
      rfl

end Scan

end CueScript.Syntax
