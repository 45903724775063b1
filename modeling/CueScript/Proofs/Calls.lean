import CueScript.Session

/-!
# CueScript.Proofs.Calls — the commands that a session asks for

1. **Sources**: `Operation.text?` is the expression text of an operation and `Operation.expression?`
   the expression that is parsed out of it. Both are read off the operation alone.
2. **Steps**: an operation calls its host once when that expression is a command substitution, and
   not at all otherwise.
3. **Answers**: a transcript puts beside each call what its answer comes to. An operation depends on
   its host through its transcript alone.
4. **Runs**: the calls of a session are those of its operations in order. What the variables hold
   and what the host answers has no part in them, even when the host has a memory. The transcript of
   a run settles its answers and its environment.
-/

namespace CueScript

/-! ## Sources -/

/-- The text of a value that is read as an expression. All other values stand for themselves. -/
def Value.text? : Value → Option String
  | .text s => some s
  | .bool _ | .list _ | .mapping _ => none

/-- The text that an operation evaluates, if it comes to that: a loop header and a condition must be
well-formed, and so must the targets of an assignment. -/
def Operation.text? : Operation → Option String
  | .evaluate value => value.text?
  | .evaluateText text => some text
  | .resolveLoop header => (LoopHeader.parse header).toOption.map (·.expression)
  | .resolveCondition ifSection _ => (Syntax.ifCondition ifSection.header).toOption
  | .assign lhs rhs => (Targets.parse lhs).toOption.bind fun _ => rhs.text?
  | .evaluateParsed _ | .set _ _ => none

/-- The expression that a text spells, if it spells one. -/
def parsed? (text : Option String) : Option Expression :=
  text.bind fun t => (Expression.parse t).toOption

/-- The expression that an operation evaluates: the one that its text spells, or the one that it
was given. -/
def Operation.expression? : Operation → Option Expression
  | .evaluateParsed e => some e
  | op => parsed? op.text?

/-- The calls for an expression: one for a command substitution, in unchecked mode. -/
def callsFor (e : Option Expression) : List Call :=
  (e.bind Expression.commandLine?).toList.map (Call.mk .unchecked)

def Operation.calls (op : Operation) : List Call :=
  callsFor op.expression?

/-- There is at most one call, and its line is that of the command substitution. -/
theorem eq_of_mem_callsFor {e : Option Expression} {c : Call} (hc : c ∈ callsFor e) :
    c.mode = .unchecked ∧ ∃ negated, e = some ⟨negated, .command c.line⟩ := by
  simp only [callsFor, List.mem_map, Option.mem_toList, Option.bind_eq_some_iff] at hc
  obtain ⟨line, ⟨⟨negated, form⟩, rfl, hline⟩, rfl⟩ := hc
  cases form with
  | command line' =>
      obtain rfl := Option.some.inj hline
      exact ⟨rfl, negated, rfl⟩
  | lookup name => exact absurd hline (by simp [Expression.commandLine?])
  | defined name => exact absurd hline (by simp [Expression.commandLine?])

theorem length_callsFor_le (e : Option Expression) : (callsFor e).length ≤ 1 := by
  rw [callsFor, List.length_map]
  cases e.bind Expression.commandLine? with
  | none => simp
  | some line => simp

/-! ## Steps -/

variable (host : Host) (env : Environment)

/-- Only a command substitution calls the host. -/
theorem calls_expression (e : Expression) : (e.evaluate host env).calls = callsFor (some e) := by
  rcases e with ⟨negated, form⟩
  cases form with
  | command line => rfl
  | lookup name =>
      -- the value that is found is an answer, never a text to be read again
      simp only [Expression.evaluate, Traced.calls_map, Form.evaluate]
      cases env.get? name with
      | none => rfl
      | some value => rfl
  | defined name => rfl

/-- A text that spells no expression calls nothing. -/
theorem calls_evaluateText (text : String) :
    (evaluateText host env text).calls = callsFor (parsed? (some text)) := by
  rw [evaluateText, parsed?, Option.bind_some]
  cases Expression.parse text with
  | error e => rfl
  | ok e => exact calls_expression host env e

/-- A value that stands for itself calls nothing, whatever it holds. -/
theorem calls_evaluate (value : Value) :
    (evaluate host env value).calls = callsFor (parsed? value.text?) := by
  cases value with
  | text s => exact calls_evaluateText host env s
  | bool b => rfl
  | list items => rfl
  | mapping entries => rfl

/-- The calls of an operation are read off the operation. -/
theorem Operation.calls_run (op : Operation) : (op.run host env).calls = op.calls := by
  cases op with
  | evaluate value => exact calls_evaluate host env value
  | evaluateText text => exact calls_evaluateText host env text
  | evaluateParsed e => exact calls_expression host env e
  | resolveLoop header =>
      simp only [run, Traced.calls_map, CueScript.resolveLoop, calls, expression?, text?]
      cases LoopHeader.parse header with
      | error e => rfl
      | ok h => exact calls_evaluateText host env h.expression
  | resolveCondition ifSection next =>
      simp only [run, Traced.calls_map, CueScript.resolveCondition, calls, expression?, text?]
      cases Syntax.ifCondition ifSection.header with
      | error e => rfl
      | ok condition => exact calls_evaluateText host env condition
  | assign lhs rhs =>
      simp only [run, Traced.calls_map, CueScript.assign, calls, expression?, text?]
      cases Targets.parse lhs with
      | error e => rfl
      | ok targets => exact calls_evaluate host env rhs
  | set name value => rfl

/-! ## Answers -/

/-- Every answer comes to a text. -/
theorem exists_observe_value (answer : Except Fault CommandOutcome) :
    ∃ s, (observe answer).value = .text s := by
  cases answer with
  | ok outcome => exact ⟨outcome.output, rfl⟩
  | error fault => exact ⟨fault.output, rfl⟩

/-- Calls that are made in one environment, each with what its answer comes to. -/
def Host.transcript (calls : List Call) : List (Call × Evaluation) :=
  calls.map fun c => (c, observe (host c.mode c.line env))

theorem Host.map_fst_transcript (calls : List Call) :
    (host.transcript env calls).map Prod.fst = calls := by
  simp [Host.transcript, Function.comp_def]

section Answers

variable {host env} {host' : Host}

/-- A command substitution sees the answer to the call that is logged for it, and nothing else of
its host. -/
theorem Expression.evaluate_of_transcript {e : Expression}
    (h : host.transcript env (callsFor (some e)) = host'.transcript env (callsFor (some e))) :
    e.evaluate host env = e.evaluate host' env := by
  rcases e with ⟨negated, form⟩
  cases form with
  | command line =>
      have hanswer : observe (host .unchecked line env) = observe (host' .unchecked line env) := by
        simpa [Host.transcript, callsFor, Expression.commandLine?] using h
      simp only [Expression.evaluate, Form.evaluate, hanswer]
  | lookup name => rfl
  | defined name => rfl

theorem evaluateText_of_transcript {text : String}
    (h : host.transcript env (callsFor (parsed? (some text)))
      = host'.transcript env (callsFor (parsed? (some text)))) :
    evaluateText host env text = evaluateText host' env text := by
  rw [evaluateText, evaluateText]
  cases hparse : Expression.parse text with
  | error e => rfl
  | ok e =>
      rw [parsed?, Option.bind_some, hparse] at h
      exact congrArg (Traced.map Except.ok) (Expression.evaluate_of_transcript h)

theorem evaluate_of_transcript {value : Value}
    (h : host.transcript env (callsFor (parsed? value.text?))
      = host'.transcript env (callsFor (parsed? value.text?))) :
    evaluate host env value = evaluate host' env value := by
  cases value with
  | text s => exact evaluateText_of_transcript h
  | bool b => rfl
  | list items => rfl
  | mapping entries => rfl

/-- An operation depends on its host through the answers to its calls alone. -/
theorem Operation.run_of_transcript {op : Operation}
    (h : host.transcript env op.calls = host'.transcript env op.calls) :
    op.run host env = op.run host' env := by
  cases op with
  | evaluate value => simp only [run, CueScript.evaluate_of_transcript h]
  | evaluateText text => simp only [run, CueScript.evaluateText_of_transcript h]
  | evaluateParsed e => simp only [run, Expression.evaluate_of_transcript h]
  | resolveLoop header =>
      simp only [run, CueScript.resolveLoop]
      cases hheader : LoopHeader.parse header with
      | error e => rfl
      | ok parsed =>
          simp only [calls, expression?, text?, hheader] at h
          have hvalue : CueScript.evaluateText host env parsed.expression
              = CueScript.evaluateText host' env parsed.expression := evaluateText_of_transcript h
          simp only [hvalue]
  | resolveCondition ifSection next =>
      simp only [run, CueScript.resolveCondition]
      cases hcondition : Syntax.ifCondition ifSection.header with
      | error e => rfl
      | ok condition =>
          simp only [calls, expression?, text?, hcondition] at h
          have hvalue : CueScript.evaluateText host env condition
              = CueScript.evaluateText host' env condition := evaluateText_of_transcript h
          simp only [hvalue]
  | assign lhs rhs =>
      simp only [run, CueScript.assign]
      cases htargets : Targets.parse lhs with
      | error e => rfl
      | ok targets =>
          simp only [calls, expression?, text?, htargets] at h
          have hvalue : CueScript.evaluate host env rhs = CueScript.evaluate host' env rhs :=
            evaluate_of_transcript h
          simp only [hvalue]
  | set name value => rfl

end Answers

/-! ## Runs -/

/-- A host with a memory: an answer may depend on all that it has seen before, and change it. -/
structure RememberingHost (σ : Type) where
  respond : σ → Call → Environment → Except Fault CommandOutcome × σ

namespace RememberingHost

variable {σ : Type}

/-- What the host answers as long as its memory does not change. -/
def recalling (h : RememberingHost σ) (memory : σ) : Host :=
  fun mode line env => (h.respond memory ⟨mode, line⟩ env).1

/-- The memory after calls that were made in one environment. -/
def after (h : RememberingHost σ) (env : Environment) (memory : σ) (calls : List Call) : σ :=
  calls.foldl (fun memory c => (h.respond memory c env).2) memory

def forgetful (host : Host) : RememberingHost Unit :=
  ⟨fun _ c env => (host c.mode c.line env, ())⟩

end RememberingHost

/-- Applies operations in order on a host with a memory. Since an operation calls at most once, one
memory serves all of it. -/
def runRemembering {σ : Type} (h : RememberingHost σ) (memory : σ) (env : Environment) :
    List Operation → Traced (Environment × List (Except SyntaxError Answer))
  | [] => .quiet (env, [])
  | op :: ops =>
    let first := op.run (h.recalling memory) env
    let others := runRemembering h (h.after env memory first.calls) first.result.1 ops
    ⟨(others.result.1, first.result.2 :: others.result.2), first.calls ++ others.calls⟩

/-- A host without a memory gives the same runs. -/
theorem runRemembering_of_host (ops : List Operation) :
    runRemembering (.forgetful host) () env ops = runSession host env ops := by
  induction ops generalizing env with
  | nil => rfl
  | cons op ops ih =>
      simp only [runRemembering, runSession]
      rw [← ih]
      rfl

/-- The calls of a run are those of its operations, in order. -/
theorem calls_runRemembering {σ : Type} (h : RememberingHost σ) (memory : σ) (env : Environment)
    (ops : List Operation) :
    (runRemembering h memory env ops).calls = ops.flatMap Operation.calls := by
  -- memory and environment vary: the first operation leaves others to the rest
  induction ops generalizing memory env with
  | nil => rfl
  | cons op ops ih =>
      rw [runRemembering, List.flatMap_cons]
      dsimp only
      rw [Operation.calls_run, ih]

/-- The calls of a run on a host with a memory, each with what its answer comes to. -/
def RememberingHost.transcript {σ : Type} (h : RememberingHost σ) (memory : σ) (env : Environment) :
    List Operation → List (Call × Evaluation)
  | [] => []
  | op :: ops =>
    let first := op.run (h.recalling memory) env
    (h.recalling memory).transcript env first.calls ++
      h.transcript (h.after env memory first.calls) first.result.1 ops

/-- A transcript leaves out no call and makes none up. -/
theorem RememberingHost.map_fst_transcript {σ : Type} (h : RememberingHost σ) (memory : σ)
    (env : Environment) (ops : List Operation) :
    (h.transcript memory env ops).map Prod.fst = (runRemembering h memory env ops).calls := by
  induction ops generalizing memory env with
  | nil => rfl
  | cons op ops ih =>
      simp only [transcript, runRemembering, List.map_append, Host.map_fst_transcript, ih]

/-- Two hosts with the same transcript have the same run, whatever they would answer to other
calls. -/
theorem runRemembering_of_transcript {σ τ : Type} {h : RememberingHost σ} {h' : RememberingHost τ}
    {memory : σ} {memory' : τ} {env : Environment} {ops : List Operation}
    (heq : h.transcript memory env ops = h'.transcript memory' env ops) :
    runRemembering h memory env ops = runRemembering h' memory' env ops := by
  -- the first operation has its part of the transcript, and leaves one environment to both rests
  induction ops generalizing memory memory' env with
  | nil => rfl
  | cons op ops ih =>
      simp only [RememberingHost.transcript, Operation.calls_run] at heq
      have hlength : ((h.recalling memory).transcript env op.calls).length
          = ((h'.recalling memory').transcript env op.calls).length := by
        rw [Host.transcript, Host.transcript, List.length_map, List.length_map]
      obtain ⟨hfirst, hrest⟩ := List.append_inj heq hlength
      have hstep : op.run (h.recalling memory) env = op.run (h'.recalling memory') env :=
        Operation.run_of_transcript hfirst
      rw [hstep] at hrest
      simp only [runRemembering, hstep, Operation.calls_run, ih hrest]

/-- The contents of variables never become commands. Two runs of the same operations make the same
calls in the same order, whatever environments they start in and however their hosts answer. Each
operation makes at most one call, in unchecked mode; its line is that of the command substitution
which the text of the operation itself spells. Without one there is no call. The calls are all that
a host is asked: what it answers to them, and nothing else about it, settles the results and the
environments of a run. -/
theorem session_calls_independent :
    (∀ (σ τ : Type) (h : RememberingHost σ) (h' : RememberingHost τ) (memory : σ) (memory' : τ)
      (env env' : Environment) (ops : List Operation),
      (runRemembering h memory env ops).calls = (runRemembering h' memory' env' ops).calls) ∧
    (∀ (host host' : Host) (env env' : Environment) (ops : List Operation),
      (runSession host env ops).calls = (runSession host' env' ops).calls) ∧
    (∀ (host : Host) (env : Environment) (op : Operation),
      (op.run host env).calls.length ≤ 1 ∧
      (∀ c ∈ (op.run host env).calls, c.mode = .unchecked ∧
        ∃ negated, op.expression? = some ⟨negated, .command c.line⟩) ∧
      (∀ negated line, op.expression? = some ⟨negated, .command line⟩ →
        (op.run host env).calls = [⟨.unchecked, line⟩]) ∧
      ((∀ negated line, op.expression? ≠ some ⟨negated, .command line⟩) →
        (op.run host env).calls = [])) ∧
    (∀ (host host' : Host) (env : Environment) (op : Operation),
      host.transcript env (op.run host env).calls = host'.transcript env (op.run host env).calls →
      op.run host env = op.run host' env) ∧
    (∀ (σ τ : Type) (h : RememberingHost σ) (h' : RememberingHost τ) (memory : σ) (memory' : τ)
      (env : Environment) (ops : List Operation),
      (h.transcript memory env ops).map Prod.fst = (runRemembering h memory env ops).calls ∧
      (h.transcript memory env ops = h'.transcript memory' env ops →
        runRemembering h memory env ops = runRemembering h' memory' env ops)) := by
  refine ⟨?_, ?_, ?_, ?_, ?_⟩
  · intro σ τ h h' memory memory' env env' ops
    rw [calls_runRemembering, calls_runRemembering]
  · intro host host' env env' ops
    rw [← runRemembering_of_host, ← runRemembering_of_host, calls_runRemembering,
      calls_runRemembering]
  · intro host env op
    rw [Operation.calls_run]
    refine ⟨length_callsFor_le op.expression?, ?_, ?_, ?_⟩
    · intro c hc
      exact eq_of_mem_callsFor hc
    · intro negated line hexpr
      rw [Operation.calls, hexpr]
      rfl
    · intro hnone
      rw [List.eq_nil_iff_forall_not_mem]
      intro c hc
      rcases eq_of_mem_callsFor hc with ⟨-, negated, hexpr⟩
      exact hnone negated c.line hexpr
  · intro host host' env op heq
    rw [Operation.calls_run] at heq
    exact Operation.run_of_transcript heq
  · intro σ τ h h' memory memory' env ops
    exact ⟨h.map_fst_transcript memory env ops, runRemembering_of_transcript⟩

end CueScript
