import CueScript.Proofs.History
import CueScript.Proofs.Independence
import CueScript.Proofs.Syntax.Targets

/-!
# CueScript.Proofs.AssignedNames — which names assignments bind

A name is meant to be bare: no `$` in front and no braces around it. The reader of names takes off
one `$` and one layer of braces, so that a second layer stays in the name.

1. **Names**: `Bare` names, and the tokens with a second `$` or second braces whose names are not.
2. **Targets**: the names that an assignment binds are those that its tokens spell.
3. **Runs**: after a run of assignments in an empty environment, exactly the names are bound that
   the tokens of the successful ones spell.
4. **Bare names**: only tokens with a second layer lead to names that are not bare.
-/

namespace CueScript

/-! ## Names -/

namespace Syntax

/-- Braces stand around the name. -/
def Wrapped (name : List Char) : Prop :=
  ∃ m, name = '{' :: (m ++ ['}'])

/-- A name without a `$` in front and without braces around it. -/
structure Bare (name : String) : Prop where
  unmarked : name.toList.head? ≠ some '$'
  unwrapped : ¬ Wrapped name.toList

/-- A second `$` stands behind the first one or behind the brace that opens there, whatever follows.
Blanks and a quote may stand in front. -/
def SecondMark (token : String) : Prop :=
  ∃ w q o r, Text.Blanks w ∧ Text.Layer isQuote q ∧ Text.Layer (· == '{') o ∧
    token.toList = w ++ q ++ '$' :: (o ++ '$' :: r)

/-- Second braces stand in the first ones. Quotes and blanks may stand around them. -/
def SecondBraces (token : String) : Prop :=
  ∃ w q m q' w', Text.Blanks w ∧ Text.Layer isQuote q ∧ Text.Layer isQuote q' ∧ Text.Blanks w' ∧
    token.toList = w ++ q ++ '$' :: '{' :: '{' :: (m ++ '}' :: '}' :: (q' ++ w'))

variable {token name : String}

/-- A `$` in front of a name was the second one of its token. -/
theorem secondMark_of_name (h : parseName token = .ok name) (hname : name.toList.head? = some '$') :
    SecondMark token := by
  rcases nameOf?_eq_some_iff_layers.1 (parseName_eq_ok_iff.1 h) with ⟨l, htoken, -⟩
  obtain ⟨r, hr⟩ : ∃ r, name.toList = '$' :: r := by
    cases hlist : name.toList with
    | nil => simp [hlist] at hname
    | cons c r =>
        obtain rfl : c = '$' := by simpa [hlist] using hname
        exact ⟨r, rfl⟩
  refine ⟨l.padFront, l.quoteFront, l.braceFront, r ++ l.braceBack ++ l.quoteBack ++ l.padBack,
    l.blanks_padFront, l.layer_quoteFront, l.layer_braceFront, ?_⟩
  rw [htoken, hr]
  simp [Layers.around, Layers.core, Layers.inner]

/-- Braces around a name were the second ones of its token: the first ones came off at both ends. -/
theorem secondBraces_of_name (h : parseName token = .ok name) (hname : Wrapped name.toList) :
    SecondBraces token := by
  rcases nameOf?_eq_some_iff_layers.1 (parseName_eq_ok_iff.1 h) with ⟨l, htoken, hfull⟩
  obtain ⟨m, hm⟩ := hname
  have hfront : l.braceFront = ['{'] := by
    rcases l.layer_braceFront with hnone | ⟨c, hc, hsome⟩
    · have hhead := hfull.braceFront hnone
      rw [Layers.inner, hnone, hm] at hhead
      exact absurd rfl hhead
    · obtain rfl : c = '{' := by simpa using hc
      exact hsome
  have hback : l.braceBack = ['}'] := by
    rcases l.layer_braceBack with hnone | ⟨c, hc, hsome⟩
    · have hlast := (l.braceBack_iff name.toList).1 (hfull.braceBack hnone) '}'
      rw [hm, ← List.cons_append, List.getLast?_concat] at hlast
      exact absurd (hlast rfl) (by decide)
    · obtain rfl : c = '}' := by simpa using hc
      exact hsome
  refine ⟨l.padFront, l.quoteFront, m, l.quoteBack, l.padBack, l.blanks_padFront,
    l.layer_quoteFront, l.layer_quoteBack, l.blanks_padBack, ?_⟩
  rw [htoken, hm]
  simp [Layers.around, Layers.core, Layers.inner, hfront, hback]

/-- A token with one `$` has no second one. -/
theorem SecondMark.two_le_count (h : SecondMark token) : 2 ≤ token.toList.count '$' := by
  obtain ⟨w, q, o, r, -, -, -, htoken⟩ := h
  rw [htoken]
  simp only [List.count_append, List.count_cons_self]
  omega

/-- A token with one opening brace has no second layer of them. -/
theorem SecondBraces.two_le_count (h : SecondBraces token) : 2 ≤ token.toList.count '{' := by
  obtain ⟨w, q, m, q', w', -, -, -, -, htoken⟩ := h
  rw [htoken, List.count_append, List.count_cons_of_ne (by decide), List.count_cons_self,
    List.count_cons_self]
  omega

/-! ## Targets -/

/-- The tokens of a left-hand side: what stands before the first comma, and what stands behind it. -/
def targetTokens (lhs : String) : List String :=
  match Text.cutAt? ',' lhs.toList with
  | none => [lhs]
  | some (l, r) => [String.ofList l, String.ofList r]

/-- The names of targets are those that the tokens spell. -/
theorem TargetsSpelled.mem_names_iff {lhs : String} {t : Targets} (h : TargetsSpelled lhs t) :
    name ∈ t.names ↔ ∃ token ∈ targetTokens lhs, parseName token = .ok name := by
  cases h with
  | one noComma spells =>
      simp [targetTokens, Text.cutAt?_of_not_mem noComma, Targets.names, spells, eq_comm]
  | @two l r ok value left right logical spells =>
      have hsplit : (l ++ "," ++ r).toList = l.toList ++ ',' :: r.toList := by simp
      have htokens : targetTokens (l ++ "," ++ r) = [l, r] := by
        rw [targetTokens, hsplit, Text.cutAt?_append left]
        simp
      simp [htokens, Targets.names, logical, spells, eq_comm]

end Syntax

namespace Assignment

def tokens (a : Assignment) : List String :=
  Syntax.targetTokens a.lhs

theorem operation_injective : Function.Injective operation := by
  rintro ⟨lhs, rhs⟩ ⟨lhs', rhs'⟩ h
  obtain ⟨rfl, rfl⟩ := Operation.assign.inj h
  rfl

variable {host : Host} {env : Environment} {a : Assignment} {name : String}

/-- An assignment that fails binds nothing, and one that succeeds binds what its tokens spell. -/
theorem mem_keys_bound_iff :
    name ∈ Bindings.keys (a.bound host env) ↔ (∃ answer, a.answer host env = .ok answer) ∧
      ∃ token ∈ a.tokens, Syntax.parseName token = .ok name := by
  rw [bound, answer, operation, Operation.bound, Operation.run, Traced.result_map]
  cases ht : Targets.parse a.lhs with
  | error e =>
      rw [assign_of_bad_targets ht]
      simp [Bindings.keys, Except.map]
  | ok targets =>
      cases hr : (evaluate host env a.rhs).result with
      | error e =>
          rw [assign_of_bad_value ht hr]
          simp [Bindings.keys, Except.map]
      | ok r =>
          rw [assign_of_value ht hr, tokens,
            ← (Syntax.parse_targets_eq_ok_iff.1 ht).mem_names_iff, Targets.keys_pairs]
          simp [Except.map]

end Assignment

/-! ## Runs -/

section Runs

variable {σ : Type} (h : RememberingHost σ) (memory : σ)

/-- The names that are bound after a run of assignments in an empty environment. -/
def assignedNames (as : List Assignment) : List String :=
  (reached h memory .empty (as.map Assignment.operation)).names

/-- The operations of such a run that were answered with a success. -/
def successes (as : List Assignment) : List Operation :=
  succeeding (as.map Assignment.operation)
    (runRemembering h memory .empty (as.map Assignment.operation)).result.2

/-- What a run of assignments binds, from any environment on. -/
theorem mem_keys_boundBy_iff (env : Environment) (as : List Assignment) (name : String) :
    name ∈ Bindings.keys (boundBy h memory env (as.map Assignment.operation)) ↔
      ∃ a : Assignment, a.operation ∈ succeeding (as.map Assignment.operation)
          (runRemembering h memory env (as.map Assignment.operation)).result.2 ∧
        ∃ token ∈ a.tokens, Syntax.parseName token = .ok name := by
  induction as generalizing memory env with
  | nil => simp [boundBy, Bindings.keys, succeeding]
  | cons a as ih =>
      have hfirst : name ∈ Bindings.keys (a.bound (h.recalling memory) env) ↔
          (∃ answer, a.answer (h.recalling memory) env = .ok answer) ∧
            ∃ token ∈ a.tokens, Syntax.parseName token = .ok name :=
        Assignment.mem_keys_bound_iff
      have hrest := ih (h.after env memory (a.operation.run (h.recalling memory) env).calls)
        (a.operation.run (h.recalling memory) env).result.1
      rw [List.map_cons, boundBy, Bindings.keys, List.map_append, List.mem_append,
        ← Bindings.keys, ← Bindings.keys, hrest, runRemembering]
      rw [Assignment.bound] at hfirst
      rw [hfirst, Assignment.answer]
      cases (a.operation.run (h.recalling memory) env).result.2 with
      | error e =>
          -- the first assignment failed and is not among the successes
          simp
      | ok answer =>
          rw [succeeding_cons_ok]
          constructor
          · rintro (⟨-, hspelled⟩ | ⟨b, hb, hspelled⟩)
            · exact ⟨a, List.mem_cons_self, hspelled⟩
            · exact ⟨b, List.mem_cons_of_mem _ hb, hspelled⟩
          · rintro ⟨b, hb, hspelled⟩
            rcases List.mem_cons.1 hb with heq | hb
            · obtain rfl := Assignment.operation_injective heq
              exact .inl ⟨⟨answer, rfl⟩, hspelled⟩
            · exact .inr ⟨b, hb, hspelled⟩

theorem mem_assignedNames_iff (as : List Assignment) (name : String) :
    name ∈ assignedNames h memory as ↔ ∃ a : Assignment, a.operation ∈ successes h memory as ∧
      ∃ token ∈ a.tokens, Syntax.parseName token = .ok name := by
  rw [assignedNames, reached_eq, Environment.mem_names_bindAll, mem_keys_boundBy_iff, successes]
  simp [Environment.names, Environment.empty, Bindings.keys]

theorem mem_of_mem_successes {as : List Assignment} {a : Assignment}
    (ha : a.operation ∈ successes h memory as) : a ∈ as := by
  rw [successes, succeeding, List.mem_map] at ha
  obtain ⟨p, hp, hop⟩ := ha
  have hmem := (List.of_mem_zip (List.mem_filter.1 hp).1).1
  rw [hop, List.mem_map] at hmem
  obtain ⟨b, hb, heq⟩ := hmem
  exact Assignment.operation_injective heq ▸ hb

end Runs

/-! ## Bare names -/

/-- Assignments bind bare names, unless a token has a second layer. After a run of assignments in an
empty environment, exactly the names are bound that the tokens of the successful ones spell. A name
that is spelled without a second `$` does not start with one, and a name that is spelled without
second braces is not wrapped in braces. So all names are bare when no token has a second layer. -/
theorem assigned_names_bare {σ : Type} (h : RememberingHost σ) (memory : σ)
    (as : List Assignment) :
    (∀ name, name ∈ assignedNames h memory as ↔
      ∃ a : Assignment, a.operation ∈ successes h memory as ∧
        ∃ token ∈ a.tokens, Syntax.parseName token = .ok name) ∧
    (∀ a : Assignment, a.operation ∈ successes h memory as →
      ∀ token ∈ a.tokens, ∀ name, Syntax.parseName token = .ok name →
        (¬ Syntax.SecondMark token → name.toList.head? ≠ some '$') ∧
        (¬ Syntax.SecondBraces token → ¬ Syntax.Wrapped name.toList)) ∧
    ((∀ a ∈ as, ∀ token ∈ a.tokens, ¬ Syntax.SecondMark token ∧ ¬ Syntax.SecondBraces token) →
      ∀ name ∈ assignedNames h memory as, Syntax.Bare name) := by
  have hlayer : ∀ token name, Syntax.parseName token = .ok name →
      (¬ Syntax.SecondMark token → name.toList.head? ≠ some '$') ∧
      (¬ Syntax.SecondBraces token → ¬ Syntax.Wrapped name.toList) := by
    intro token name hspelled
    constructor
    · intro hmark hname
      exact hmark (Syntax.secondMark_of_name hspelled hname)
    · intro hbraces hname
      exact hbraces (Syntax.secondBraces_of_name hspelled hname)
  refine ⟨mem_assignedNames_iff h memory as, ?_, ?_⟩
  · intro a _ token _ name hspelled
    exact hlayer token name hspelled
  · intro hsingle name hname
    rcases (mem_assignedNames_iff h memory as name).1 hname with ⟨a, ha, token, htoken, hspelled⟩
    obtain ⟨hmark, hbraces⟩ := hsingle a (mem_of_mem_successes h memory ha) token htoken
    obtain ⟨hname, hwrapped⟩ := hlayer token name hspelled
    exact ⟨hname hmark, hwrapped hbraces⟩

/-- Stray quotes, a blank in braces and a brace without a partner; the second assignment fails. -/
def oddAssignments : List Assignment :=
  [⟨" \"$ok', $\x7ba b\x7d", .text "$(ls)"⟩, ⟨"$x", .text "x"⟩, ⟨"$\x7bn", .bool true⟩]

theorem assigned_names_bare_of_odd_tokens :
    assignedNames (.forgetful (Host.scripted [])) () oddAssignments = ["ok", "a b", "n"] ∧
    (∀ name ∈ ["ok", "a b", "n"], Syntax.Bare name) ∧
    Syntax.parseName "$\x7bn" = .ok "n" ∧ "n".toList.head? ≠ some '$' := by
  have hnames : assignedNames (.forgetful (Host.scripted [])) () oddAssignments
      = ["ok", "a b", "n"] := by decide
  have hcount : ∀ a ∈ oddAssignments, ∀ token ∈ a.tokens,
      token.toList.count '$' < 2 ∧ token.toList.count '{' < 2 := by decide
  have hsingle : ∀ a ∈ oddAssignments, ∀ token ∈ a.tokens,
      ¬ Syntax.SecondMark token ∧ ¬ Syntax.SecondBraces token := by
    intro a ha token htoken
    obtain ⟨hmark, hbrace⟩ := hcount a ha token htoken
    constructor
    · intro h
      exact absurd h.two_le_count (Nat.not_le.2 hmark)
    · intro h
      exact absurd h.two_le_count (Nat.not_le.2 hbrace)
  obtain ⟨-, hspelled, hbare⟩ :=
    assigned_names_bare (.forgetful (Host.scripted [])) () oddAssignments
  have hlast : (⟨"$\x7bn", .bool true⟩ : Assignment) ∈ oddAssignments := by decide
  have hsuccess : (⟨"$\x7bn", .bool true⟩ : Assignment).operation
      ∈ successes (.forgetful (Host.scripted [])) () oddAssignments := by decide
  have hname : Syntax.parseName "$\x7bn" = .ok "n" := by decide
  refine ⟨hnames, ?_, hname, ?_⟩
  · rw [← hnames]
    exact hbare hsingle
  · exact (hspelled _ hsuccess "$\x7bn" (by decide) "n" hname).1
      (hsingle _ hlast "$\x7bn" (by decide)).1

/-- The names that assignments bind are not always bare: a second `$` stays, and so do second
braces. -/
theorem second_layer_kept :
    (¬ ∀ (σ : Type) (h : RememberingHost σ) (memory : σ) (as : List Assignment),
      ∀ name ∈ assignedNames h memory as, name.toList.head? ≠ some '$') ∧
    ¬ ∀ (σ : Type) (h : RememberingHost σ) (memory : σ) (as : List Assignment),
      ∀ name ∈ assignedNames h memory as, ¬ Syntax.Wrapped name.toList := by
  have hmark : assignedNames (.forgetful (Host.scripted [])) () [⟨"$$x", .bool true⟩] = ["$x"] := by
    decide
  have hbraces : assignedNames (.forgetful (Host.scripted [])) ()
      [⟨"$\x7b\x7bx\x7d\x7d", .bool true⟩] = ["\x7bx\x7d"] := by
    decide
  constructor
  · intro hall
    exact hall Unit (.forgetful (Host.scripted [])) () [⟨"$$x", .bool true⟩] "$x"
      (by simp [hmark]) rfl
  · intro hall
    exact hall Unit (.forgetful (Host.scripted [])) () [⟨"$\x7b\x7bx\x7d\x7d", .bool true⟩]
      "\x7bx\x7d" (by simp [hbraces]) ⟨['x'], by simp⟩

end CueScript
