import CueScript.Proofs.Syntax.Scan

/-!
# CueScript.Proofs.Syntax.Turns — any sequence of steps on one cursor

Steps can be taken in any order and from any position, also from one past the end of the text.

1. **Turns**: a `Turn` is one step of a run with its answer and the cursors before and after it.
2. **Rules**: `Performs` says of each step what it answers and which piece of the text it passes.
3. **Runs**: the cursor of each turn is reached from the first one, so it never goes back and never
   leaves the text by itself.
4. **Discipline**: `cursor_keeps_to_text` puts the rules, the runs and the loops together.
-/

namespace CueScript.Syntax

/-! ## Turns -/

/-- A step that a cursor can be asked for. -/
inductive Step where
  | skipBlanks
  | eatKeyword (keyword : List Char)
  | readToken
deriving Repr, DecidableEq

/-- What a step answers: whether it found what it looks for, or the token itself. -/
inductive Finding where
  | flag (b : Bool)
  | token (t : Option (List Char))
deriving Repr, DecidableEq

/-- The answer of a step that finds nothing to pass. -/
def Finding.Refused : Finding → Prop
  | .flag b => b = false
  | .token t => t = none

def Step.run : Step → Cursor → Finding × Cursor
  | .skipBlanks, c => (.flag c.skipBlanks.1, c.skipBlanks.2)
  | .eatKeyword k, c => (.flag (c.eatKeyword k).1, (c.eatKeyword k).2)
  | .readToken, c => (.token c.readToken.1, c.readToken.2)

/-- Takes a step by the loops over positions. -/
def Step.scan : Step → Cursor → Except OutOfBounds (Finding × Cursor)
  | .skipBlanks, c => do
    let (moved, d) ← Scan.skipBlanks c
    return (.flag moved, d)
  | .eatKeyword k, c => do
    let (found, d) ← Scan.eatKeyword k c
    return (.flag found, d)
  | .readToken, c => do
    let (token, d) ← Scan.readToken c
    return (.token token, d)

/-- One step of a run. -/
structure Turn where
  before : Cursor
  step : Step
  finding : Finding
  after : Cursor
deriving Repr, DecidableEq

/-- Takes steps one after the other, each where the one before it has left the cursor. -/
def turns (c : Cursor) : List Step → List Turn
  | [] => []
  | s :: steps => ⟨c, s, (s.run c).1, (s.run c).2⟩ :: turns (s.run c).2 steps

/-- Takes steps one after the other by the loops over positions. -/
def scanTurns (c : Cursor) : List Step → Except OutOfBounds (List Turn)
  | [] => return []
  | s :: steps => do
    let (finding, d) ← s.scan c
    return ⟨c, s, finding, d⟩ :: (← scanTurns d steps)

/-! ## Rules -/

variable {c d : Cursor} {s : Step} {finding : Finding} {w : List Char}

/-- The rule of each step: what it answers at a cursor `c`, and which piece `w` it passes to `d`. -/
inductive Performs (c : Cursor) : Step → Finding → List Char → Cursor → Prop where
  /-- All blanks are passed, and the answer tells whether the position moved. -/
  | skipBlanks {moved : Bool} {w : List Char} {d : Cursor} (answer : moved = true ↔ d.pos ≠ c.pos)
      (run : Text.Blanks w) (stops : Text.TightStart d.rest) :
      Performs c .skipBlanks (.flag moved) w d
  /-- The keyword is passed when it stands at the cursor with a blank behind it. -/
  | eatKeyword {k : List Char} {found : Bool} {w : List Char} {d : Cursor}
      (answer : found = true ↔ ∃ b r, Text.isBlank b = true ∧ c.rest = k ++ b :: r)
      (piece : w = if found then k else []) : Performs c (.eatKeyword k) (.flag found) w d
  /-- The token that stands at the cursor, if there is one, is answered and passed. -/
  | readToken {token : Option (List Char)} {w : List Char} {d : Cursor}
      (answer : ∀ t, token = some t ↔ ∃ r, c.rest = t ++ r ∧ Cursor.TokenBefore t r)
      (piece : w = token.getD []) : Performs c .readToken (.token token) w d

/-- Every step follows its rule. -/
theorem Step.performs (s : Step) (c : Cursor) :
    ∃ w, Cursor.Passes c w (s.run c).2 ∧ Performs c s (s.run c).1 w (s.run c).2 := by
  cases s with
  | skipBlanks =>
      rcases Cursor.passes_skipBlanks c with ⟨w, hw, hpassed, hstops, hany⟩
      refine ⟨w, hpassed, .skipBlanks ?_ hw hstops⟩
      rw [hany, Step.run, hpassed.pos_eq, ← List.length_pos_iff]
      omega
  | eatKeyword k =>
      refine ⟨if (c.eatKeyword k).1 then k else [], ?_,
        .eatKeyword Cursor.eatKeyword_answer_iff rfl⟩
      rw [Step.run]
      cases heaten : (c.eatKeyword k).1 with
      | true => exact Cursor.passes_eatKeyword heaten
      | false =>
          rw [Cursor.eatKeyword_of_refused heaten]
          exact Cursor.passes_nil c
  | readToken =>
      refine ⟨c.readToken.1.getD [], ?_, .readToken ?_ rfl⟩
      · rw [Step.run]
        cases hread : c.readToken.1 with
        | none =>
            rw [Cursor.readToken_of_refused hread]
            exact Cursor.passes_nil c
        | some t => exact (Cursor.passes_readToken (Prod.ext hread rfl)).2
      · intro t
        rw [Cursor.readToken_answer]
        exact Cursor.tokenAt?_eq_some_iff

/-- A refused step leaves the cursor where it is. -/
theorem Performs.eq_of_refused (h : Performs c s finding w d) (hpassed : Cursor.Passes c w d)
    (hrefused : finding.Refused) : d = c := by
  have hnil : w = [] := by
    cases h with
    | @skipBlanks moved _ _ answer run stops =>
        have hpos : d.pos = c.pos := by
          by_contra hmoved
          have htrue := answer.2 hmoved
          rw [hrefused] at htrue
          exact absurd htrue (by decide)
        rw [hpassed.pos_eq] at hpos
        exact List.length_eq_zero_iff.1 (by omega)
    | eatKeyword answer piece =>
        rw [piece, hrefused]
        rfl
    | readToken answer piece =>
        rw [piece, hrefused]
        rfl
  rw [hpassed.moved, hnil]
  rfl

theorem Step.scan_eq (s : Step) (c : Cursor) : s.scan c = .ok (s.run c) := by
  cases s with
  | skipBlanks => rw [Step.scan, Scan.skipBlanks_eq]; rfl
  | eatKeyword k => rw [Step.scan, Scan.eatKeyword_eq]; rfl
  | readToken => rw [Step.scan, Scan.readToken_eq]; rfl

/-! ## Runs -/

/-- The loops take the same turns, and none of them reads outside the text. -/
theorem scanTurns_eq (c : Cursor) (steps : List Step) :
    scanTurns c steps = .ok (turns c steps) := by
  induction steps generalizing c with
  | nil => rfl
  | cons s steps ih =>
      rw [scanTurns, Step.scan_eq, Except.ok_bind]
      dsimp only
      rw [ih, Except.ok_bind]
      rfl

/-- Every turn of a run starts at a cursor that was reached before, and follows the rule. -/
theorem performs_of_mem_turns {c : Cursor} {steps : List Step} {turn : Turn}
    (hturn : turn ∈ turns c steps) :
    Cursor.Reaches c turn.before ∧ ∃ w, Cursor.Passes turn.before w turn.after ∧
      Performs turn.before turn.step turn.finding w turn.after := by
  induction steps generalizing c with
  | nil => simp [turns] at hturn
  | cons s steps ih =>
      rcases List.mem_cons.1 hturn with rfl | hlater
      · exact ⟨Cursor.reaches_refl c, s.performs c⟩
      · obtain ⟨hreached, hrule⟩ := ih hlater
        rcases s.performs c with ⟨w, hpassed, -⟩
        exact ⟨hpassed.reaches.trans hreached, hrule⟩

/-- Every turn of a run ends at a cursor that is reached from the first one. -/
theorem reaches_of_mem_turns {c : Cursor} {steps : List Step} {turn : Turn}
    (hturn : turn ∈ turns c steps) : Cursor.Reaches c turn.after := by
  obtain ⟨hreached, w, hpassed, -⟩ := performs_of_mem_turns hturn
  exact hreached.trans hpassed.reaches

/-- There is one turn for each step. -/
theorem map_step_turns (c : Cursor) (steps : List Step) : (turns c steps).map (·.step) = steps := by
  induction steps generalizing c with
  | nil => rfl
  | cons s steps ih => rw [turns, List.map_cons, ih]

/-- The positions of a run never go back. -/
theorem pairwise_positions (c : Cursor) (steps : List Step) :
    (c.pos :: (turns c steps).map (·.after.pos)).Pairwise (· ≤ ·) := by
  induction steps generalizing c with
  | nil => simp [turns]
  | cons s steps ih =>
      refine List.pairwise_cons.2 ⟨?_, ih (s.run c).2⟩
      intro p hp
      obtain ⟨turn, hturn, rfl⟩ := List.mem_map.1 hp
      exact (reaches_of_mem_turns hturn).le_pos

/-! ## Discipline -/

/-- A cursor keeps to its text, whatever is asked of it and wherever it starts. The loops take every
turn without an access outside the text, and so does the reader of headers, whose expression is a
slice up to the end. The position never goes back, and goes on only inside the text. A refused step
moves nothing. Every turn passes exactly the piece that its rule names. -/
theorem cursor_keeps_to_text (text : List Char) (start : Nat) (steps : List Step) :
    scanTurns ⟨text, start⟩ steps = .ok (turns ⟨text, start⟩ steps) ∧
    (turns ⟨text, start⟩ steps).map (·.step) = steps ∧
    (start :: (turns ⟨text, start⟩ steps).map (·.after.pos)).Pairwise (· ≤ ·) ∧
    (∀ turn ∈ turns ⟨text, start⟩ steps,
      turn.after.pos ≤ max start text.length ∧
      (turn.finding.Refused → turn.after = turn.before) ∧
      ∃ w, turn.before.rest = w ++ turn.after.rest ∧
        turn.after = ⟨text, turn.before.pos + w.length⟩ ∧
        Performs turn.before turn.step turn.finding w turn.after) ∧
    Scan.headerPieces text = .ok (headerPieces? text) := by
  refine ⟨scanTurns_eq _ steps, map_step_turns _ steps, pairwise_positions ⟨text, start⟩ steps, ?_,
    Scan.headerPieces_eq text⟩
  intro turn hturn
  obtain ⟨hreached, w, hpassed, hrule⟩ := performs_of_mem_turns hturn
  have htext : turn.before.text = text := hreached.text_eq
  refine ⟨(reaches_of_mem_turns hturn).pos_le, hrule.eq_of_refused hpassed, w, hpassed.front, ?_,
    hrule⟩
  rw [hpassed.moved, Cursor.advance, htext]

/-- A header that ends right behind `in`, so that its last keyword is refused when all of it has
been read. The braces hold a comma and a blank. -/
def cutHeader : List Char :=
  "for $\x7ba, b\x7d in".toList

/-- The steps of its reader, and one token too many. -/
def cutHeaderSteps : List Step :=
  [.eatKeyword ['f', 'o', 'r'], .skipBlanks, .readToken, .readToken, .skipBlanks,
    .eatKeyword ['i', 'n']]

theorem cursor_keeps_to_text_of_cut_header :
    (turns ⟨cutHeader, 0⟩ cutHeaderSteps).map (fun turn => (turn.finding, turn.after.pos))
      = [(.flag true, 3), (.flag true, 4), (.token (some "$\x7ba, b\x7d".toList), 11),
        (.token none, 11), (.flag true, 12), (.flag false, 12)] ∧
    (∀ turn ∈ turns ⟨cutHeader, 0⟩ cutHeaderSteps, turn.after.pos ≤ 14) ∧
    Scan.headerPieces cutHeader = .ok none := by
  obtain ⟨-, -, -, hrules, hheader⟩ := cursor_keeps_to_text cutHeader 0 cutHeaderSteps
  have hlength : max 0 cutHeader.length = 14 := by decide
  have hnone : headerPieces? cutHeader = none := by decide
  refine ⟨by decide, ?_, ?_⟩
  · intro turn hturn
    rw [← hlength]
    exact (hrules turn hturn).1
  · rw [hheader, hnone]

-- past the end nothing is left: every step is refused, and the position stays where it is
example : (turns ⟨['$', 'x'], 5⟩ [.skipBlanks, .eatKeyword [], .readToken]).map
    (fun turn => (turn.finding, turn.after.pos))
    = [(.flag false, 5), (.flag false, 5), (.token none, 5)] := by
  decide

end CueScript.Syntax
