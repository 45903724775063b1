import Mathlib.Data.List.Infix
import CueScript.Host.Scripted
import CueScript.Proofs.Assignment
import CueScript.Proofs.Calls
import CueScript.Proofs.Condition
import CueScript.Proofs.Except
import CueScript.Proofs.Loops
import CueScript.Proofs.Syntax.Expression
import CueScript.Proofs.Syntax.LoopHeader
import CueScript.Proofs.Syntax.Targets

/-!
# CueScript.Proofs.Refusals — malformed statements are refused without effect

1. **Reports**: `SyntaxError.Reports` holds of an error and the input of a reader when the error
   shows a piece of that input. Every reader reports in this way.
2. **Causes**: `Operation.Refused` lists what an operation can be refused for, with the argument
   that the error complains about. The readers are asked in a fixed order and their errors are
   handed on as they are.
3. **No effect**: a refused operation leaves the environment alone. Nothing is run for it, unless
   it is a loop that meets the wrong kind of value.
-/

namespace CueScript

/-! ## Reports -/

/-- What an error of a reader says about its input: the text that it shows is a piece of the input,
and a token that it calls no variable is none. Readers do not look at values. -/
structure SyntaxError.Reports (e : SyntaxError) (input : String) : Prop where
  piece : e.text.toList <:+: input.toList
  token : ∀ token, e = .variableName token → Syntax.parseName token = .error e
  static : ∀ typeName expression, e ≠ .destructure typeName expression

/-- A report about a part is one about the whole. -/
theorem SyntaxError.Reports.of_part {e : SyntaxError} {part input : String} (h : e.Reports part)
    (hpart : part.toList <:+: input.toList) : e.Reports input :=
  ⟨h.piece.trans hpart, h.token, h.static⟩

namespace Syntax

variable {input : String} {e : SyntaxError}

theorem reports_of_parseName (h : parseName input = .error e) : e.Reports input := by
  obtain ⟨-, rfl⟩ := parseName_eq_error_iff.1 h
  refine ⟨List.infix_refl _, ?_, by simp⟩
  intro token htoken
  obtain rfl := SyntaxError.variableName.inj htoken
  exact h

/-- What a frame shows is a piece of the input. -/
theorem Framed.infix {input text : List Char} {negated : Bool} (h : Framed input negated text) :
    text <:+: input := by
  obtain ⟨p, q, -, -, rfl, -, -⟩ := h
  exact ⟨p ++ (notMark negated).toList, q, by simp⟩

/-- Behind `defined ` the token is shown, otherwise the whole input. -/
theorem reports_of_parse (h : Expression.parse input = .error e) : e.Reports input := by
  rcases exists_framed input.toList with ⟨negated, text, hframe⟩
  rw [parse_of_framed hframe, Except.map_eq_error_iff, parseForm_eq_error_iff] at h
  cases h with
  | unterminated unclosed => exact ⟨List.infix_refl _, by simp, by simp⟩
  | formless noDollar noQuote noDefined => exact ⟨List.infix_refl _, by simp, by simp⟩
  | @nameless token bad =>
      -- the token is the end of what the frame shows
      apply (reports_of_parseName (parseName_of_bad bad)).of_part
      rw [String.toList_ofList]
      exact (List.suffix_append "defined ".toList token).isInfix.trans hframe.infix

/-- A text that is no loop header is shown whole. -/
theorem reports_of_parse_loop (h : LoopHeader.parse input = .error e) : e.Reports input := by
  obtain rfl := error_of_parse h
  exact ⟨List.infix_refl _, by simp, by simp⟩

/-- The expression of a loop is a piece of its header. -/
theorem expression_infix {header : LoopHeader} (h : LoopHeader.parse input = .ok header) :
    header.expression.toList <:+: input.toList := by
  rcases exists_spelled_of_parse h with ⟨p, hspelled, hdenoted⟩
  obtain ⟨w₀, w₁, vars, w₅, w₆, -, -, -, -, -, -, -, hsplit⟩ := hspelled
  rw [hdenoted.1, String.toList_ofList, hsplit]
  exact List.infix_append _ p.expression w₆

/-- A header that does not open a condition is shown whole. -/
theorem reports_of_ifCondition (h : ifCondition input = .error e) : e.Reports input := by
  obtain ⟨-, rfl⟩ := ifCondition_eq_error_iff.1 h
  exact ⟨List.infix_refl _, by simp, by simp⟩

/-- The condition is a piece of its header. -/
theorem condition_infix {condition : String} (h : ifCondition input = .ok condition) :
    condition.toList <:+: input.toList := by
  obtain ⟨rest, rfl, rfl⟩ := ifCondition_eq_ok_iff.1 h
  rw [String.toList_ofList, String.toList_append]
  exact (Text.trim_infix rest.toList).trans (List.suffix_append _ _).isInfix

/-- Too many targets are shown together, a bad one alone. -/
theorem reports_of_parse_targets (h : Targets.parse input = .error e) : e.Reports input := by
  cases parse_targets_eq_error_iff.1 h with
  | tooMany commas => exact ⟨List.infix_refl _, by simp, by simp⟩
  | one noComma bad => exact reports_of_parseName (parseName_of_bad bad)
  | first left right bad =>
      apply (reports_of_parseName (parseName_of_bad bad)).of_part
      rw [String.toList_append, String.toList_append, List.append_assoc]
      exact (List.prefix_append _ _).isInfix
  | second left right logical bad =>
      apply (reports_of_parseName (parseName_of_bad bad)).of_part
      rw [String.toList_append]
      exact (List.suffix_append _ _).isInfix

end Syntax

/-! ## Causes -/

section Evaluation

variable {host : Host} {env : Environment} {header text : String} {value : Value}
  {e : SyntaxError} {expression : Expression}

/-- Once it is read, an expression has results. -/
theorem evaluateText_of_parse (h : Expression.parse text = .ok expression) :
    evaluateText host env text = (expression.evaluate host env).map .ok := by
  rw [evaluateText, h]

/-- Nothing is run for a text that spells no expression. -/
theorem evaluateText_of_error (h : Expression.parse text = .error e) :
    evaluateText host env text = .quiet (.error e) := by
  rw [evaluateText, h]

theorem evaluateText_error_iff :
    (evaluateText host env text).result = .error e ↔ Expression.parse text = .error e := by
  cases hparse : Expression.parse text with
  | error e' => simp [evaluateText_of_error hparse]
  | ok expression => simp [evaluateText_of_parse hparse]

/-- Only a text can be refused. -/
theorem evaluate_error_iff :
    (evaluate host env value).result = .error e ↔
      ∃ text, value = .text text ∧ Expression.parse text = .error e := by
  cases value with
  | text s =>
      rw [evaluate, evaluateText_error_iff]
      simp
  | bool b => simp [evaluate]
  | list items => simp [evaluate]
  | mapping entries => simp [evaluate]

/-- Two control variables want a mapping. -/
theorem Loop.ofValue_error_iff {vars : ControlVars} :
    Loop.ofValue vars text value = .error e ↔
      (∃ key name, vars = .pair key name) ∧ (∀ entries, value ≠ .mapping entries) ∧
        e = .destructure value.typeName text := by
  cases vars with
  | single name => cases value <;> simp [Loop.ofValue]
  | pair key name => cases value <;> simp [Loop.ofValue, eq_comm]

/-- A loop over an expression that is read looks at its value alone. -/
theorem resolveLoop_of_parse {vars : ControlVars}
    (hheader : LoopHeader.parse header = .ok ⟨vars, text⟩)
    (h : Expression.parse text = .ok expression) :
    resolveLoop host env header = (expression.evaluate host env).map
      fun r => (Loop.ofValue vars text r.value).map (Loop.mk vars) := by
  rw [resolveLoop_of_header hheader, evaluateText_of_parse h]
  rfl

end Evaluation

/-- What an operation is refused for, in this environment on this host, and the argument that the
error complains about. -/
inductive Operation.Refused (host : Host) (env : Environment) :
    Operation → SyntaxError → String → Prop where
  /-- The value is a text that spells no expression. -/
  | value {text : String} {e : SyntaxError} (bad : Expression.parse text = .error e) :
      Refused host env (.evaluate (.text text)) e text
  /-- The text spells no expression. -/
  | text {text : String} {e : SyntaxError} (bad : Expression.parse text = .error e) :
      Refused host env (.evaluateText text) e text
  /-- The header opens no loop. -/
  | loopHeader {header : String} {e : SyntaxError} (bad : LoopHeader.parse header = .error e) :
      Refused host env (.resolveLoop header) e header
  /-- The header opens a loop over a text that spells no expression. -/
  | loopExpression {header : String} {h : LoopHeader} {e : SyntaxError}
      (reads : LoopHeader.parse header = .ok h) (bad : Expression.parse h.expression = .error e) :
      Refused host env (.resolveLoop header) e header
  /-- The header asks for keys and values of something that is no mapping. -/
  | loopValue {header key name expression : String} {r : Evaluation}
      (reads : LoopHeader.parse header = .ok ⟨.pair key name, expression⟩)
      (evaluates : (CueScript.evaluateText host env expression).result = .ok r)
      (bad : ∀ entries, r.value ≠ .mapping entries) :
      Refused host env (.resolveLoop header) (.destructure r.value.typeName expression) header
  /-- The header opens no condition. -/
  | conditionHeader {ifSection : Section String} {next : Option (Section String)} {e : SyntaxError}
      (bad : Syntax.ifCondition ifSection.header = .error e) :
      Refused host env (.resolveCondition ifSection next) e ifSection.header
  /-- The condition spells no expression. -/
  | condition {ifSection : Section String} {next : Option (Section String)} {condition : String}
      {e : SyntaxError} (reads : Syntax.ifCondition ifSection.header = .ok condition)
      (bad : Expression.parse condition = .error e) :
      Refused host env (.resolveCondition ifSection next) e ifSection.header
  /-- The left-hand side spells no targets. -/
  | targets {lhs : String} {rhs : Value} {e : SyntaxError} (bad : Targets.parse lhs = .error e) :
      Refused host env (.assign lhs rhs) e lhs
  /-- What is assigned to good targets is a text that spells no expression. -/
  | assigned {lhs text : String} {targets : Targets} {e : SyntaxError}
      (reads : Targets.parse lhs = .ok targets) (bad : Expression.parse text = .error e) :
      Refused host env (.assign lhs (.text text)) e text

section Operations

variable {host : Host} {env : Environment} {op : Operation} {e : SyntaxError} {arg : String}

/-- A loop fails at its header, at its expression, or at the value. -/
theorem refused_of_resolveLoop {header : String}
    (h : (resolveLoop host env header).result = .error e) :
    Operation.Refused host env (.resolveLoop header) e header := by
  cases hread : LoopHeader.parse header with
  | error e' =>
      rw [resolveLoop_of_bad_header hread] at h
      obtain rfl := Except.error.inj h
      exact .loopHeader hread
  | ok parsed =>
      rcases parsed with ⟨vars, text⟩
      cases hparse : Expression.parse text with
      | error e' =>
          rw [resolveLoop_of_header hread, evaluateText_of_error hparse] at h
          obtain rfl := Except.error.inj h
          exact .loopExpression hread hparse
      | ok expression =>
          -- only the value is left to blame
          rw [resolveLoop_of_parse hread hparse, Traced.result_map, Except.map_eq_error_iff] at h
          obtain ⟨⟨key, name, rfl⟩, hvalue, rfl⟩ := Loop.ofValue_error_iff.1 h
          have hresult : (evaluateText host env text).result
              = .ok (expression.evaluate host env).result := by
            rw [evaluateText_of_parse hparse]
            rfl
          exact .loopValue hread hresult hvalue

/-- A condition fails at its header or at its expression, whatever its bodies are. -/
theorem resolveCondition_error_iff {β : Type} {ifSection : Section β}
    {next : Option (Section β)} :
    (resolveCondition host env ifSection next).result = .error e ↔
      Syntax.ifCondition ifSection.header = .error e ∨
      ∃ condition, Syntax.ifCondition ifSection.header = .ok condition ∧
        Expression.parse condition = .error e := by
  cases hread : Syntax.ifCondition ifSection.header with
  | error e' => simp [resolveCondition_of_bad_header hread]
  | ok condition =>
      simp [resolveCondition_of_header hread, Except.map_eq_error_iff, evaluateText_error_iff]

/-- An assignment fails at its targets or at what is assigned. -/
theorem refused_of_assign {lhs : String} {rhs : Value}
    (h : (assign host env lhs rhs).result.2 = .error e) :
    ∃ arg, Operation.Refused host env (.assign lhs rhs) e arg := by
  cases hread : Targets.parse lhs with
  | error e' =>
      rw [assign_of_bad_targets hread] at h
      obtain rfl := Except.error.inj h
      exact ⟨lhs, .targets hread⟩
  | ok targets =>
      cases hresult : (evaluate host env rhs).result with
      | error e' =>
          rw [assign_of_bad_value hread hresult] at h
          obtain rfl := Except.error.inj h
          rcases evaluate_error_iff.1 hresult with ⟨text, rfl, hbad⟩
          exact ⟨text, .assigned hread hbad⟩
      | ok r =>
          -- binding can not fail
          rw [assign_of_value hread hresult] at h
          exact absurd h (by simp)

/-- Every error has a cause. -/
theorem Operation.exists_refused (h : (op.run host env).result.2 = .error e) :
    ∃ arg, op.Refused host env e arg := by
  cases op with
  | evaluate value =>
      simp only [run, Traced.result_map, Except.map_eq_error_iff] at h
      rcases evaluate_error_iff.1 h with ⟨text, rfl, hbad⟩
      exact ⟨text, .value hbad⟩
  | evaluateText text =>
      simp only [run, Traced.result_map, Except.map_eq_error_iff] at h
      exact ⟨text, .text (evaluateText_error_iff.1 h)⟩
  | evaluateParsed expression => simp [run] at h
  | resolveLoop header =>
      simp only [run, Traced.result_map, Except.map_eq_error_iff] at h
      exact ⟨header, refused_of_resolveLoop h⟩
  | resolveCondition ifSection next =>
      simp only [run, Traced.result_map, Except.map_eq_error_iff] at h
      rcases resolveCondition_error_iff.1 h with hbad | ⟨condition, hread, hbad⟩
      · exact ⟨ifSection.header, .conditionHeader hbad⟩
      · exact ⟨ifSection.header, .condition hread hbad⟩
  | assign lhs rhs =>
      simp only [run, Traced.result_map, Except.map_eq_error_iff] at h
      exact refused_of_assign h
  | set name value => simp [run] at h

/-! ## No effect -/

/-- Refusing anything but a value takes no call. -/
theorem Operation.Refused.run_eq (h : op.Refused host env e arg)
    (hstatic : ∀ typeName expression, e ≠ .destructure typeName expression) :
    op.run host env = .quiet (env, .error e) := by
  -- all readers come before the first call, and before anything is bound
  cases h with
  | value bad =>
      rw [run, CueScript.evaluate, evaluateText_of_error bad]
      rfl
  | text bad =>
      rw [run, evaluateText_of_error bad]
      rfl
  | loopHeader bad =>
      rw [run, resolveLoop_of_bad_header bad]
      rfl
  | loopExpression reads bad =>
      rw [run, resolveLoop_of_header reads, evaluateText_of_error bad]
      rfl
  | loopValue reads evaluates bad => exact absurd rfl (hstatic _ _)
  | conditionHeader bad =>
      rw [run, resolveCondition_of_bad_header bad]
      rfl
  | condition reads bad =>
      rw [run, resolveCondition_of_header reads, evaluateText_of_error bad]
      rfl
  | targets bad =>
      rw [run, assign_of_bad_targets bad]
      rfl
  | assigned reads bad =>
      simp only [run, CueScript.assign, reads, CueScript.evaluate, evaluateText_of_error bad]
      rfl

/-- A cause is a reader that reports on the argument, or a value of the wrong type. -/
theorem Operation.Refused.reports_or_value (h : op.Refused host env e arg) :
    e.Reports arg ∨
    ∃ key name expression r, op = .resolveLoop arg ∧
      LoopHeader.parse arg = .ok ⟨.pair key name, expression⟩ ∧
      (CueScript.evaluateText host env expression).result = .ok r ∧
      (∀ entries, r.value ≠ .mapping entries) ∧
      e = .destructure r.value.typeName expression := by
  cases h with
  | value bad => exact .inl (Syntax.reports_of_parse bad)
  | text bad => exact .inl (Syntax.reports_of_parse bad)
  | loopHeader bad => exact .inl (Syntax.reports_of_parse_loop bad)
  | loopExpression reads bad =>
      -- the error is about the expression, which is a piece of the header
      exact .inl ((Syntax.reports_of_parse bad).of_part (Syntax.expression_infix reads))
  | @loopValue header key name expression r reads evaluates bad =>
      exact .inr ⟨key, name, expression, r, rfl, reads, evaluates, bad, rfl⟩
  | conditionHeader bad => exact .inl (Syntax.reports_of_ifCondition bad)
  | condition reads bad =>
      exact .inl ((Syntax.reports_of_parse bad).of_part (Syntax.condition_infix reads))
  | targets bad => exact .inl (Syntax.reports_of_parse_targets bad)
  | assigned reads bad => exact .inl (Syntax.reports_of_parse bad)

/-- The error is the one of the cause, and the environment stays as it is. -/
theorem Operation.Refused.result_eq (h : op.Refused host env e arg) :
    (op.run host env).result = (env, .error e) := by
  rcases h.reports_or_value with hreports | ⟨key, name, expression, r, rfl, hread, hr, hbad, rfl⟩
  · rw [h.run_eq hreports.static]
    rfl
  · -- the expression has results, so only the value is to blame
    rw [run, resolveLoop_of_header hread, Traced.result_map, Traced.result_map, hr]
    simp only [Except.bind, Loop.ofValue_pair hbad]
    rfl

/-- What an error shows is a piece of the argument. -/
theorem Operation.Refused.piece (h : op.Refused host env e arg) :
    e.text.toList <:+: arg.toList := by
  rcases h.reports_or_value with hreports | ⟨key, name, expression, r, -, hread, -, -, rfl⟩
  · exact hreports.piece
  · exact Syntax.expression_infix hread

/-- A condition that fails runs nothing. -/
theorem resolveCondition_of_error {β : Type} {ifSection : Section β} {next : Option (Section β)}
    (h : (resolveCondition host env ifSection next).result = .error e) :
    resolveCondition host env ifSection next = .quiet (.error e) := by
  rcases resolveCondition_error_iff.1 h with hbad | ⟨condition, hread, hbad⟩
  · exact resolveCondition_of_bad_header hbad
  · rw [resolveCondition_of_header hread, evaluateText_of_error hbad]
    rfl

end Operations

/-- A malformed statement has no effect. An operation fails exactly for the causes that
`Operation.Refused` lists, with the error of the reader that refuses it. The environment stays as it
is. The error shows a piece of the argument that it complains about, and a token that it calls no
variable is none. The host is asked for nothing; only where two control variables meet a value that
is no mapping, the expression of the loop has been evaluated, with one call at most. A condition
fails for the same causes whatever its bodies are. -/
theorem refused_operation_has_no_effect (host : Host) (env : Environment) :
    (∀ (op : Operation) (e : SyntaxError),
      (op.run host env).result.2 = .error e ↔ ∃ arg, op.Refused host env e arg) ∧
    (∀ (op : Operation) (e : SyntaxError) (arg : String), op.Refused host env e arg →
      (op.run host env).result = (env, .error e) ∧
      e.text.toList <:+: arg.toList ∧
      (∀ token, e = .variableName token → Syntax.parseName token = .error e) ∧
      ((∀ typeName expression, e ≠ .destructure typeName expression) →
        (op.run host env).calls = []) ∧
      (∀ typeName expression, e = .destructure typeName expression →
        (op.run host env).calls.length ≤ 1 ∧
        ∃ key name r, op = .resolveLoop arg ∧
          LoopHeader.parse arg = .ok ⟨.pair key name, expression⟩ ∧
          (evaluateText host env expression).result = .ok r ∧
          (∀ entries, r.value ≠ .mapping entries) ∧ typeName = r.value.typeName)) ∧
    (∀ (β : Type) (ifSection : Section β) (next : Option (Section β)) (e : SyntaxError),
      ((resolveCondition host env ifSection next).result = .error e ↔
        Operation.Refused host env (.resolveCondition ⟨ifSection.header, ""⟩ none) e
          ifSection.header) ∧
      ((resolveCondition host env ifSection next).result = .error e →
        (resolveCondition host env ifSection next).calls = [])) := by
  refine ⟨?_, ?_, ?_⟩
  · intro op e
    constructor
    · exact Operation.exists_refused
    · rintro ⟨arg, h⟩
      rw [h.result_eq]
  · intro op e arg h
    refine ⟨h.result_eq, h.piece, ?_, ?_, ?_⟩
    · rintro token rfl
      rcases h.reports_or_value with hreports | ⟨_, _, _, _, _, _, _, _, hvalue⟩
      · exact hreports.token token rfl
      · exact absurd hvalue (by simp)
    · intro hstatic
      rw [h.run_eq hstatic]
      rfl
    · rintro typeName expression rfl
      refine ⟨?_, ?_⟩
      · rw [Operation.calls_run]
        exact length_callsFor_le op.expression?
      · rcases h.reports_or_value with
          hreports | ⟨key, name, expression', r, hop, hread, hr, hbad, hvalue⟩
        · exact absurd rfl (hreports.static typeName expression)
        · obtain ⟨rfl, rfl⟩ := SyntaxError.destructure.inj hvalue
          exact ⟨key, name, r, hop, hread, hr, hbad, rfl⟩
  · intro β ifSection next e
    constructor
    · rw [resolveCondition_error_iff]
      constructor
      · rintro (hbad | ⟨condition, hread, hbad⟩)
        · exact .conditionHeader hbad
        · exact .condition hread hbad
      · intro h
        cases h with
        | conditionHeader bad => exact .inl bad
        | condition reads bad => exact .inr ⟨_, reads, bad⟩
    · intro h
      rw [resolveCondition_of_error h]
      rfl

/-- A bad name among the targets is reported before the command is run; that a list of words can not
be taken for a mapping shows only when the command has told them. -/
theorem refused_operation_has_no_effect_of_bad_target :
    Operation.Refused (Host.scripted []) .empty (.assign "$a, b" (.text "$(rm a)"))
      (.variableName " b") "$a, b" ∧
    ((Operation.assign "$a, b" (.text "$(rm a)")).run (Host.scripted []) .empty).calls = [] ∧
    Operation.Refused (Host.scripted [("ls", .outcome ⟨0, "a b"⟩)]) .empty
      (.resolveLoop "for $k, $v in $(ls)") (.destructure "text" "$(ls)") "for $k, $v in $(ls)" ∧
    ((Operation.resolveLoop "for $k, $v in $(ls)").run
      (Host.scripted [("ls", .outcome ⟨0, "a b"⟩)]) .empty).calls.length ≤ 1 := by
  have hassign : Operation.Refused (Host.scripted []) .empty (.assign "$a, b" (.text "$(rm a)"))
      (.variableName " b") "$a, b" := .targets (by decide)
  have hheader : LoopHeader.parse "for $k, $v in $(ls)" = .ok ⟨.pair "k" "v", "$(ls)"⟩ := by decide
  have hloop : Operation.Refused (Host.scripted [("ls", .outcome ⟨0, "a b"⟩)]) .empty
      (.resolveLoop "for $k, $v in $(ls)") (.destructure "text" "$(ls)") "for $k, $v in $(ls)" :=
    .loopValue (r := ⟨true, .text "a b"⟩) hheader rfl (by simp)
  refine ⟨hassign, ?_, hloop, ?_⟩
  · exact ((refused_operation_has_no_effect _ .empty).2.1 _ _ _ hassign).2.2.2.1 (by simp)
  · exact (((refused_operation_has_no_effect _ .empty).2.1 _ _ _ hloop).2.2.2.2 _ _ rfl).1

end CueScript
