import CueScript.Host.Scripted
import CueScript.Proofs.Condition
import CueScript.Proofs.Refusals
import CueScript.Proofs.Spelling

/-!
# CueScript.Proofs.Negation — what `not ` in front of an expression changes

1. **Reading**: `not ` may stand in front of exactly the texts that spell an expression without it
   and start with no blank. The form that is read is the same.
2. **Evaluation**: the logical result is turned over; the value and the calls stay.
3. **Conditions**: the other side of the section is taken.
4. **Loops**: nothing changes, since loops look at the value alone.
-/

namespace CueScript

/-! ## Reading -/

namespace Syntax

variable {text : List Char} {f : Form} {x : String}

/-- A mark in front of a tight start is the mark of the frame. -/
theorem framed_not {input : List Char} (hstart : Text.TightStart input)
    (h : Framed input false text) (hne : text ≠ []) :
    Framed ("not ".toList ++ input) true text := by
  obtain ⟨p, q, hp, hq, rfl, htight, -⟩ := h
  rw [List.append_assoc] at hstart
  obtain rfl := hp.eq_nil_of_append hstart
  refine ⟨[], q, Text.blanks_nil, hq, by simp [notMark], ⟨Text.tightStart_cons.2 (by decide), ?_⟩,
    by simp⟩
  exact (Text.tightEnd_append hne).2 htight.back

/-- A form behind the mark stands directly behind it. -/
theorem framed_of_framed_not {input : List Char} {negated : Bool}
    (h : Framed ("not ".toList ++ input) negated text) (hf : FormSpelled text f) :
    negated = true ∧ Text.TightStart input ∧ Framed input false text := by
  rcases hf.front with ⟨c, l, rfl, hc, hmark⟩
  obtain ⟨p, q, hp, hq, hsplit, htight, -⟩ := h
  have hfront : Text.TightStart ("not ".toList ++ input) := Text.tightStart_cons.2 (by decide)
  rw [hsplit, List.append_assoc] at hfront
  obtain rfl := hp.eq_nil_of_append hfront
  cases negated with
  | false =>
      -- a form without the mark would have to start with `n`
      have hcons : 'n' :: ("ot ".toList ++ input) = c :: (l ++ q) := by simpa [notMark] using hsplit
      exact absurd (List.cons.inj hcons).1.symm hmark
  | true =>
      have hbehind : "not ".toList ++ input = "not ".toList ++ (c :: l ++ q) := by
        simpa [notMark] using hsplit
      obtain rfl := List.append_cancel_left hbehind
      refine ⟨rfl, Text.tightStart_cons.2 hc, [], q, Text.blanks_nil, hq, by simp [notMark], ?_, ?_⟩
      · exact ⟨Text.tightStart_cons.2 hc, (Text.tightEnd_append (by simp)).1 htight.back⟩
      · rintro - ⟨rest, hrest⟩
        exact hmark (List.cons.inj hrest).1.symm

/-- What `not ` may stand in front of, and what it makes of it. -/
theorem parse_not_eq_ok_iff {e : Expression} :
    Expression.parse ("not " ++ x) = .ok e ↔
      Text.TightStart x.toList ∧ e.negated = true ∧ Expression.parse x = .ok ⟨false, e.form⟩ := by
  rcases e with ⟨negated, f⟩
  constructor
  · intro h
    rcases exists_spelled h with ⟨text, hframe, hspelled⟩
    rw [String.toList_append] at hframe
    -- the mark belongs to the frame, so the same form stands in the frame of `x`
    obtain ⟨hnegated, hstart, hplain⟩ := framed_of_framed_not hframe hspelled
    exact ⟨hstart, hnegated, parse_of_spelled hplain hspelled⟩
  · rintro ⟨hstart, rfl, h⟩
    rcases exists_spelled h with ⟨text, hframe, hspelled⟩
    -- without a form, the blank of the mark would be padding
    have hne : text ≠ [] := by
      rcases hspelled.front with ⟨c, l, rfl, -⟩
      simp
    have hnot : Framed ("not " ++ x).toList true text := by
      rw [String.toList_append]
      exact framed_not hstart hframe hne
    exact parse_of_spelled hnot hspelled

end Syntax

/-! ## Evaluation -/

def Evaluation.negate (r : Evaluation) : Evaluation :=
  ⟨!r.logical, r.value⟩

section Evaluation

variable {host : Host} {env : Environment} {x : String} {form : Form}

/-- A negation turns the logical result over and leaves the value and the calls alone. -/
theorem Expression.evaluate_negated (host : Host) (env : Environment) (form : Form) :
    Expression.evaluate host env ⟨true, form⟩
      = (Expression.evaluate host env ⟨false, form⟩).map Evaluation.negate := by
  simp [Expression.evaluate, Traced.map, Evaluation.negate]

theorem evaluateText_not (hstart : Text.TightStart x.toList)
    (h : Expression.parse x = .ok ⟨false, form⟩) :
    evaluateText host env ("not " ++ x)
      = (evaluateText host env x).map (Except.map Evaluation.negate) := by
  have hnot : Expression.parse ("not " ++ x) = .ok ⟨true, form⟩ :=
    Syntax.parse_not_eq_ok_iff.2 ⟨hstart, rfl, h⟩
  rw [evaluateText_of_parse hnot, evaluateText_of_parse h, Expression.evaluate_negated]
  rfl

/-- A text can be evaluated behind `not ` when it starts with no blank and spells an expression
that is not negated itself. -/
theorem evaluateText_not_ok_iff :
    (∃ r, (evaluateText host env ("not " ++ x)).result = .ok r) ↔
      Text.TightStart x.toList ∧ ∃ form, Expression.parse x = .ok ⟨false, form⟩ := by
  constructor
  · rintro ⟨r, hr⟩
    rw [evaluateText] at hr
    cases hparse : Expression.parse ("not " ++ x) with
    | error e =>
        rw [hparse] at hr
        exact absurd hr (by simp)
    | ok e =>
        obtain ⟨hstart, -, hplain⟩ := Syntax.parse_not_eq_ok_iff.1 hparse
        exact ⟨hstart, e.form, hplain⟩
  · rintro ⟨hstart, form, hplain⟩
    rw [evaluateText_not hstart hplain, evaluateText_of_parse hplain]
    exact ⟨_, rfl⟩

end Evaluation

/-! ## Conditions -/

section Conditions

variable {host : Host} {env : Environment} {x : String} {β : Type}

theorem ifCondition_if (x : String) :
    Syntax.ifCondition ("if " ++ x) = .ok (String.ofList (Text.trim x.toList)) := by
  have hheader : "if " ++ x = "if" ++ (" " ++ x) := by
    rw [← String.append_assoc]
    rfl
  have htrim : Text.trim (" ".toList ++ x.toList) = Text.trim x.toList :=
    Text.trim_cons_blank (by decide)
  rw [hheader, Syntax.ifCondition_of_if, String.toList_append, htrim]

theorem resolveCondition_if {e : Expression} (h : Expression.parse x = .ok e) (body : β)
    (next : Option (Section β)) :
    resolveCondition host env ⟨"if " ++ x, body⟩ next
      = (e.evaluate host env).map fun r => .ok (Branch.select r.logical body next) := by
  have hread : Syntax.ifCondition (Section.mk ("if " ++ x) body).header
      = .ok (String.ofList (Text.trim x.toList)) := ifCondition_if x
  rw [resolveCondition_of_header hread, evaluateText_of_parse (Syntax.expression_parse_trim.2 h)]
  rfl

/-- Opposite results select opposite sides, and step over the same section. -/
theorem Branch.select_opposite (taken : Bool) (body : β) (next : Option (Section β)) :
    let alternative := (next.filter fun s => Syntax.isElse s.header).map (·.body)
    (select taken body next).skipNext = (select (!taken) body next).skipNext ∧
    ((select taken body next).kind = .onTrue ∧ (select taken body next).body = some body ∧
        (select (!taken) body next).kind = .onFalse ∧
        (select (!taken) body next).body = alternative ∨
      (select taken body next).kind = .onFalse ∧ (select taken body next).body = alternative ∧
        (select (!taken) body next).kind = .onTrue ∧
        (select (!taken) body next).body = some body) := by
  cases taken with
  | true => exact ⟨rfl, .inl ⟨rfl, rfl, rfl, rfl⟩⟩
  | false => exact ⟨rfl, .inr ⟨rfl, rfl, rfl, rfl⟩⟩

/-- The header `if not` takes the side that `if` does not take. -/
theorem resolveCondition_if_not {form : Form} (hstart : Text.TightStart x.toList)
    (h : Expression.parse x = .ok ⟨false, form⟩) (body : β) (next : Option (Section β)) :
    resolveCondition host env ⟨"if not " ++ x, body⟩ next
      = (Expression.evaluate host env ⟨false, form⟩).map
          fun r => .ok (Branch.select (!r.logical) body next) := by
  have hnot : Expression.parse ("not " ++ x) = .ok ⟨true, form⟩ :=
    Syntax.parse_not_eq_ok_iff.2 ⟨hstart, rfl, h⟩
  have hheader : "if not " ++ x = "if " ++ ("not " ++ x) := by
    rw [← String.append_assoc]
    rfl
  rw [hheader, resolveCondition_if hnot, Expression.evaluate_negated]
  rfl

end Conditions

/-! ## Loops -/

namespace Syntax

/-- A loop header up to its expression. -/
def OpeningSpelled (opening first : List Char) (second : Option (List Char)) : Prop :=
  ∃ w₀ w₁ vars w₅, Text.Blanks w₀ ∧ Text.Gap w₁ ∧ VarsSpelled vars first second ∧ Text.Gap w₅ ∧
    opening = w₀ ++ ['f', 'o', 'r'] ++ w₁ ++ vars ++ ['i', 'n'] ++ w₅

/-- Any expression may follow. -/
theorem OpeningSpelled.headerSpelled {opening first e : List Char} {second : Option (List Char)}
    (h : OpeningSpelled opening first second) (he : Text.trim e ≠ []) :
    HeaderSpelled (opening ++ e) ⟨first, second, Text.trim e⟩ := by
  obtain ⟨w₀, w₁, vars, w₅, hw₀, hw₁, hvars, hw₅, rfl⟩ := h
  have hpadded := (headerSpelled_of_vars hw₁ hvars hw₅ he rfl).padded hw₀ Text.blanks_nil
  simpa using hpadded

/-- The control variables are settled before the expression is. -/
theorem OpeningSpelled.exists_parse {opening : String} {first : List Char}
    {second : Option (List Char)} (h : OpeningSpelled opening.toList first second) :
    ∃ vars, (second = none ↔ ∃ name, vars = .single name) ∧
      ∀ e : String, Text.trim e.toList ≠ [] →
        LoopHeader.parse (opening ++ e) = .ok ⟨vars, String.ofList (Text.trim e.toList)⟩ := by
  -- the tokens alone name the control variables
  have hvars : ∃ vars, (second = none ↔ ∃ name, vars = .single name) ∧
      ∀ e, Denotes ⟨first, second, e⟩ ⟨vars, String.ofList e⟩ := by
    obtain ⟨-, -, vars, -, -, -, hspelled, -⟩ := h
    rcases hspelled.exists_first with ⟨-, -, hfirst⟩
    rcases hfirst.exists_name with ⟨n, hn⟩
    cases second with
    | none => exact ⟨.single n, by simp, fun e => ⟨rfl, n, hn, rfl⟩⟩
    | some t =>
        rcases hspelled.isToken_second.exists_name with ⟨m, hm⟩
        exact ⟨.pair n m, by simp, fun e => ⟨rfl, n, m, hn, hm, rfl⟩⟩
  rcases hvars with ⟨vars, hshape, hdenotes⟩
  refine ⟨vars, hshape, ?_⟩
  intro e he
  apply parse_of_denotes _ (hdenotes (Text.trim e.toList))
  rw [headerPieces?_eq_some_iff, String.toList_append]
  exact h.headerSpelled he

end Syntax

section Loops

variable {host : Host} {env : Environment}

theorem ControlVars.exists_pair {vars : ControlVars} (h : ¬ ∃ name, vars = .single name) :
    ∃ key name, vars = .pair key name := by
  cases vars with
  | single name => exact absurd ⟨name, rfl⟩ h
  | pair key name => exact ⟨key, name, rfl⟩

/-- One control variable takes every value, and the text of the expression has no part in the
items. -/
theorem Loop.exists_ofValue_single (name : String) (value : Value) :
    ∃ items, ∀ text, ofValue (.single name) text value = .ok items := by
  cases value <;> exact ⟨_, fun _ => rfl⟩

/-- A loop over a negated expression is the loop over the expression. -/
theorem resolveLoop_not {opening x : String} {first : List Char} {second : Option (List Char)}
    {form : Form} (hopening : Syntax.OpeningSpelled opening.toList first second)
    (hstart : Text.TightStart x.toList) (h : Expression.parse x = .ok ⟨false, form⟩) :
    ∃ vars, (second = none ↔ ∃ name, vars = .single name) ∧
      resolveLoop host env (opening ++ x) = (Expression.evaluate host env ⟨false, form⟩).map
        (fun r => (Loop.ofValue vars (String.ofList (Text.trim x.toList)) r.value).map
          (Loop.mk vars)) ∧
      resolveLoop host env (opening ++ ("not " ++ x))
        = (Expression.evaluate host env ⟨false, form⟩).map
          (fun r => (Loop.ofValue vars (String.ofList (Text.trim ("not " ++ x).toList)) r.value).map
            (Loop.mk vars)) := by
  have hnot : Expression.parse ("not " ++ x) = .ok ⟨true, form⟩ :=
    Syntax.parse_not_eq_ok_iff.2 ⟨hstart, rfl, h⟩
  rcases hopening.exists_parse with ⟨vars, hshape, hparse⟩
  refine ⟨vars, hshape, ?_, ?_⟩
  · exact resolveLoop_of_parse (hparse x (Syntax.trim_ne_nil h)) (Syntax.expression_parse_trim.2 h)
  · rw [resolveLoop_of_parse (hparse ("not " ++ x) (Syntax.trim_ne_nil hnot))
      (Syntax.expression_parse_trim.2 hnot), Expression.evaluate_negated]
    rfl

end Loops

/-! ## Law -/

/-- The law of negation. Behind `not ` a text is evaluated exactly when it starts with no blank and
spells an expression that is not negated itself. Then the logical result is the opposite one, with
the same value and the same calls. So the headers `if` and `if not` select opposite sides and step
over the same section: exactly one of them takes the body of the section. A loop does not notice the
negation, whatever its header looks like. With one control variable it runs over the same items.
With two it runs over the entries of a mapping, and any other value is refused for the same type. -/
theorem negation_law (host : Host) (env : Environment) (x : String) :
    ((∃ r, (evaluateText host env ("not " ++ x)).result = .ok r) ↔
      Text.TightStart x.toList ∧ ∃ form, Expression.parse x = .ok ⟨false, form⟩) ∧
    (∀ form, Text.TightStart x.toList → Expression.parse x = .ok ⟨false, form⟩ →
      ∃ r, (evaluateText host env x).result = .ok r ∧
        (evaluateText host env ("not " ++ x)).result = .ok ⟨!r.logical, r.value⟩ ∧
        (evaluateText host env ("not " ++ x)).calls = (evaluateText host env x).calls ∧
        (∀ (β : Type) (body : β) (next : Option (Section β)),
          ∃ b b' : Branch β,
            (resolveCondition host env ⟨"if " ++ x, body⟩ next).result = .ok b ∧
            (resolveCondition host env ⟨"if not " ++ x, body⟩ next).result = .ok b' ∧
            b.skipNext = b'.skipNext ∧
            (b.kind = .onTrue ∧ b.body = some body ∧ b'.kind = .onFalse ∧
                b'.body = (next.filter fun s => Syntax.isElse s.header).map (·.body) ∨
              b.kind = .onFalse ∧
                b.body = (next.filter fun s => Syntax.isElse s.header).map (·.body) ∧
                b'.kind = .onTrue ∧ b'.body = some body) ∧
            (resolveCondition host env ⟨"if not " ++ x, body⟩ next).calls
              = (resolveCondition host env ⟨"if " ++ x, body⟩ next).calls) ∧
        (∀ opening first second, Syntax.OpeningSpelled opening.toList first second →
          (resolveLoop host env (opening ++ ("not " ++ x))).calls
            = (resolveLoop host env (opening ++ x)).calls ∧
          (second = none →
            ∃ l, (resolveLoop host env (opening ++ x)).result = .ok l ∧
              (resolveLoop host env (opening ++ ("not " ++ x))).result = .ok l) ∧
          (∀ entries, second ≠ none → r.value = .mapping entries →
            ∃ l, l.items = entries.map (fun e => .pair e.1 e.2) ∧
              (resolveLoop host env (opening ++ x)).result = .ok l ∧
              (resolveLoop host env (opening ++ ("not " ++ x))).result = .ok l) ∧
          (second ≠ none → (∀ entries, r.value ≠ .mapping entries) →
            (resolveLoop host env (opening ++ x)).result = .error
              (.destructure r.value.typeName (String.ofList (Text.trim x.toList))) ∧
            (resolveLoop host env (opening ++ ("not " ++ x))).result = .error
              (.destructure r.value.typeName
                (String.ofList (Text.trim ("not " ++ x).toList)))))) := by
  refine ⟨evaluateText_not_ok_iff, ?_⟩
  intro form hstart hx
  refine ⟨(Expression.evaluate host env ⟨false, form⟩).result, ?_, ?_, ?_, ?_, ?_⟩
  · rw [evaluateText_of_parse hx]
    rfl
  · rw [evaluateText_not hstart hx, evaluateText_of_parse hx]
    rfl
  · rw [evaluateText_not hstart hx]
    rfl
  · intro β body next
    rw [resolveCondition_if hx, resolveCondition_if_not hstart hx]
    have hopposite := Branch.select_opposite
      (Expression.evaluate host env ⟨false, form⟩).result.logical body next
    exact ⟨_, _, rfl, rfl, hopposite.1, hopposite.2, rfl⟩
  · intro opening first second hopening
    rcases resolveLoop_not hopening hstart hx with ⟨vars, hshape, hloop, hloopNot⟩
    rw [hloop, hloopNot]
    simp only [Traced.result_map]
    refine ⟨rfl, ?_, ?_, ?_⟩
    · intro hone
      obtain ⟨name, rfl⟩ := hshape.1 hone
      obtain ⟨items, hitems⟩ := Loop.exists_ofValue_single name
        (Expression.evaluate host env ⟨false, form⟩).result.value
      rw [hitems, hitems]
      exact ⟨_, rfl, rfl⟩
    · intro entries htwo hentries
      obtain ⟨key, name, rfl⟩ := ControlVars.exists_pair (mt hshape.2 htwo)
      rw [hentries, Loop.ofValue_mapping, Loop.ofValue_mapping]
      exact ⟨_, rfl, rfl, rfl⟩
    · intro htwo hvalue
      obtain ⟨key, name, rfl⟩ := ControlVars.exists_pair (mt hshape.2 htwo)
      rw [Loop.ofValue_pair hvalue, Loop.ofValue_pair hvalue]
      exact ⟨rfl, rfl⟩

/-- A command that fails makes `not` true of its output; the blank behind it makes no difference. -/
theorem negation_law_of_failure :
    Text.TightStart "$(ls) ".toList ∧
    Expression.parse "$(ls) " = .ok ⟨false, .command "ls"⟩ ∧
    (evaluateText (Host.scripted [("ls", .outcome ⟨2, "a b"⟩)]) .empty ("not " ++ "$(ls) ")).result
      = .ok ⟨true, .text "a b"⟩ := by
  have hstart : Text.TightStart "$(ls) ".toList := by
    intro c hc
    obtain rfl : '$' = c := Option.some.inj hc
    decide
  have hparse : Expression.parse "$(ls) " = .ok ⟨false, .command "ls"⟩ := by decide
  rcases (negation_law (Host.scripted [("ls", .outcome ⟨2, "a b"⟩)]) .empty "$(ls) ").2
    _ hstart hparse with ⟨r, hr, hnot, -⟩
  -- the command alone is false, with the same output
  obtain rfl : ⟨false, .text "a b"⟩ = r := Except.ok.inj hr
  exact ⟨hstart, hparse, hnot⟩

end CueScript
