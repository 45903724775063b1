import CueScript.Host.Process
import CueScript.Host.Scripted
import CueScript.Proofs.Calls
import CueScript.Proofs.Except

/-!
# CueScript.Proofs.Answers — a session sees only what the answers of its host mean

`observe` takes an answer to the two things that an expression makes of it: whether the command
succeeded, and what it wrote.

1. **Agreement**: hosts agree when their answers have the same observations. An outcome with a
   status other than zero agrees with the fault that reports it.
2. **Steps**: no operation tells agreeing hosts apart, since their transcripts are the same.
3. **Errors**: a command substitution has a result on every host, and which error an operation meets
   does not depend on its host at all.
4. **Runs**: related memories go from each operation to the next, so that whole sessions agree.
-/

namespace CueScript

/-! ## Agreement -/

/-- The hosts answer each command line in each environment with the same observation. Only the mode
that sessions use counts. -/
def Host.Agree (host host' : Host) : Prop :=
  ∀ line env, observe (host .unchecked line env) = observe (host' .unchecked line env)

/-- The host that always runs its commands in one mode. -/
def Host.inMode (mode : CommandMode) (host : Host) : Host :=
  fun _ line env => host mode line env

/-- A failure can be reported as an outcome or as a fault. -/
theorem observe_failure {code : Int32} (output : String) (h : code ≠ 0) :
    observe (.ok ⟨code, output⟩) = observe (.error (.nonZeroExit code output)) := by
  simp [observe, CommandOutcome.succeeded, Fault.output, h]

/-- The mode decides how a finished process is reported, not what the report means. -/
theorem observe_complete (config : Config) (mode mode' : CommandMode) (f : Finished) :
    observe (config.complete mode f) = observe (config.complete mode' f) := by
  -- any mode against the unchecked one, which always reports an outcome
  have hplain : ∀ m, observe (config.complete m f)
      = observe (.ok ⟨f.code.getD (-1), config.outputOf f⟩) := by
    intro m
    by_cases hfault : m = .checked ∧ f.code.getD (-1) ≠ 0
    · have hreport : config.complete m f
          = .error (.nonZeroExit (f.code.getD (-1)) (config.outputOf f)) := if_pos hfault
      rw [hreport, observe_failure (config.outputOf f) hfault.2]
    · have hreport : config.complete m f = .ok ⟨f.code.getD (-1), config.outputOf f⟩ :=
        if_neg hfault
      rw [hreport]
  rw [hplain mode, hplain mode']

/-- Commands may run in either mode. -/
theorem agree_process_inMode (execute : Executor) (config : Config) (mode : CommandMode) :
    ((Host.process execute config).inMode mode).Agree (Host.process execute config) := by
  intro line env
  simp only [Host.inMode, Host.process]
  cases execute (config.launch line env) with
  | error reason => rfl
  | ok finished => exact observe_complete config mode .unchecked finished

/-! ## Steps -/

section Steps

variable {host host' : Host} (env : Environment)

/-- Agreeing hosts have the same transcripts, since operations call in unchecked mode. -/
theorem Host.Agree.transcript_eq (h : host.Agree host') (op : Operation) :
    host.transcript env op.calls = host'.transcript env op.calls := by
  apply List.map_congr_left
  intro c hc
  rw [(eq_of_mem_callsFor hc).1, h c.line env]

/-- No operation tells agreeing hosts apart. -/
theorem Operation.run_of_agree (h : host.Agree host') (op : Operation) :
    op.run host env = op.run host' env :=
  run_of_transcript (h.transcript_eq env op)

end Steps

/-! ## Errors -/

section Errors

variable (host host' : Host) (env : Environment)

/-- A command substitution has a result on every host, also for a command that fails or can not be
run. -/
theorem evaluateText_of_command {text line : String} {negated : Bool}
    (h : Expression.parse text = .ok ⟨negated, .command line⟩) :
    (evaluateText host env text).result
      = .ok ⟨(observe (host .unchecked line env)).logical != negated,
          (observe (host .unchecked line env)).value⟩ := by
  rw [evaluateText, h]
  rfl

/-- What two hosts may make of one text: the same error, the same results, or two texts. -/
theorem evaluateText_two_hosts (text : String) :
    (∃ e, (evaluateText host env text).result = .error e ∧
      (evaluateText host' env text).result = .error e) ∨
    ∃ r r', (evaluateText host env text).result = .ok r ∧
      (evaluateText host' env text).result = .ok r' ∧
      (r = r' ∨ ∃ s s', r.value = .text s ∧ r'.value = .text s') := by
  rw [evaluateText, evaluateText]
  cases Expression.parse text with
  | error e => exact .inl ⟨e, rfl, rfl⟩
  | ok expression =>
      rcases expression with ⟨negated, form⟩
      refine .inr ⟨_, _, rfl, rfl, ?_⟩
      cases form with
      | command line =>
          -- an answer is a text in either case, whatever it reports
          right
          obtain ⟨s, hs⟩ := exists_observe_value (host .unchecked line env)
          obtain ⟨s', hs'⟩ := exists_observe_value (host' .unchecked line env)
          exact ⟨s, s', hs, hs'⟩
      | lookup name => exact .inl rfl
      | defined name => exact .inl rfl

/-- Evaluating a text fails under all hosts or under none. -/
theorem evaluateText_error_of_host {text : String} {e : SyntaxError}
    (h : (evaluateText host env text).result = .error e) :
    (evaluateText host' env text).result = .error e := by
  rcases evaluateText_two_hosts host host' env text with ⟨e', he, he'⟩ | ⟨r, r', hr, -, -⟩
  · rw [h] at he
    rw [he', Except.error.inj he]
  · simp [h] at hr

theorem evaluate_error_of_host {value : Value} {e : SyntaxError}
    (h : (evaluate host env value).result = .error e) :
    (evaluate host' env value).result = .error e := by
  cases value with
  | text s => exact evaluateText_error_of_host host host' env h
  | bool b => exact h
  | list items => exact h
  | mapping entries => exact h

/-- A loop can be refused for the type of a value, but every answer of a host has the same type. -/
theorem resolveLoop_error_of_host {header : String} {e : SyntaxError}
    (h : (resolveLoop host env header).result = .error e) :
    (resolveLoop host' env header).result = .error e := by
  rw [resolveLoop] at h ⊢
  cases hparse : LoopHeader.parse header with
  | error e' =>
      rw [hparse] at h
      exact h
  | ok parsed =>
      rw [hparse] at h
      simp only [Traced.result_map] at h ⊢
      rcases evaluateText_two_hosts host host' env parsed.expression with
        ⟨e', he, he'⟩ | ⟨r, r', hr, hr', hsame⟩
      · rw [he] at h
        rw [he']
        exact h
      · rw [hr] at h
        rw [hr']
        rcases hsame with rfl | ⟨s, s', hs, hs'⟩
        · exact h
        · rcases parsed with ⟨vars, expression⟩
          cases vars with
          | single name => simp [Loop.ofValue, hs, bind, Except.bind, pure, Except.pure] at h
          | pair key value =>
              simp only [Loop.ofValue, hs, bind, Except.bind] at h
              simp only [Loop.ofValue, hs', bind, Except.bind]
              exact h

/-- Which error an operation meets is settled by the script and its variables. -/
theorem Operation.error_of_host {op : Operation} {e : SyntaxError}
    (h : (op.run host env).result.2 = .error e) : (op.run host' env).result.2 = .error e := by
  cases op with
  | evaluate value =>
      simp only [run, Traced.result_map, Except.map_eq_error_iff] at h ⊢
      exact evaluate_error_of_host host host' env h
  | evaluateText text =>
      simp only [run, Traced.result_map, Except.map_eq_error_iff] at h ⊢
      exact evaluateText_error_of_host host host' env h
  | evaluateParsed expression => simp [run] at h
  | resolveLoop header =>
      simp only [run, Traced.result_map, Except.map_eq_error_iff] at h ⊢
      exact resolveLoop_error_of_host host host' env h
  | resolveCondition ifSection next =>
      simp only [run, Traced.result_map, Except.map_eq_error_iff, CueScript.resolveCondition] at h ⊢
      cases hcondition : Syntax.ifCondition ifSection.header with
      | error e' =>
          rw [hcondition] at h
          exact h
      | ok condition =>
          rw [hcondition] at h
          simp only [Traced.result_map, Except.map_eq_error_iff] at h ⊢
          exact evaluateText_error_of_host host host' env h
  | assign lhs rhs =>
      simp only [run, Traced.result_map, Except.map_eq_error_iff, CueScript.assign] at h ⊢
      cases htargets : Targets.parse lhs with
      | error e' =>
          rw [htargets] at h
          exact h
      | ok targets =>
          rw [htargets] at h
          simp only [Traced.result_map] at h ⊢
          cases hvalue : (CueScript.evaluate host env rhs).result with
          | error e' =>
              rw [hvalue] at h
              rw [evaluate_error_of_host host host' env hvalue]
              exact h
          | ok r =>
              rw [hvalue] at h
              simp at h
  | set name value => simp [run] at h

end Errors

/-! ## Runs -/

section Runs

variable {σ τ : Type} {h : RememberingHost σ} {h' : RememberingHost τ} {R : σ → τ → Prop}
  {memory : σ} {memory' : τ}

/-- From related memories the hosts answer with the same observations, and an answer leaves related
memories behind. -/
structure RememberingHost.Simulation (h : RememberingHost σ) (h' : RememberingHost τ)
    (R : σ → τ → Prop) : Prop where
  agree : ∀ memory memory', R memory memory' → (h.recalling memory).Agree (h'.recalling memory')
  keeps : ∀ memory memory', R memory memory' → ∀ line env,
    R (h.respond memory ⟨.unchecked, line⟩ env).2 (h'.respond memory' ⟨.unchecked, line⟩ env).2

/-- Memories stay related over the calls of an operation. -/
theorem RememberingHost.Simulation.after (hs : h.Simulation h' R) (hR : R memory memory')
    (env : Environment) {calls : List Call} (hmode : ∀ c ∈ calls, c.mode = .unchecked) :
    R (h.after env memory calls) (h'.after env memory' calls) := by
  induction calls generalizing memory memory' with
  | nil => exact hR
  | cons c calls ih =>
      rcases c with ⟨mode, line⟩
      obtain rfl : mode = .unchecked := hmode ⟨mode, line⟩ (by simp)
      apply ih
      · exact hs.keeps memory memory' hR line env
      · intro c hc
        exact hmode c (by simp [hc])

/-- Hosts that simulate one another have the same runs. -/
theorem runRemembering_of_simulation (hs : h.Simulation h' R) (hR : R memory memory')
    (env : Environment) (ops : List Operation) :
    runRemembering h memory env ops = runRemembering h' memory' env ops := by
  -- the relation of the memories is the invariant; the environments are the same all along
  induction ops generalizing memory memory' env with
  | nil => rfl
  | cons op ops ih =>
      have hstep : op.run (h.recalling memory) env = op.run (h'.recalling memory') env :=
        op.run_of_agree env (hs.agree memory memory' hR)
      have hmode : ∀ c ∈ (op.run (h'.recalling memory') env).calls, c.mode = .unchecked := by
        intro c hc
        rw [Operation.calls_run] at hc
        exact (eq_of_mem_callsFor hc).1
      have hrest := ih (hs.after hR env hmode) (op.run (h'.recalling memory') env).result.1
      simp only [runRemembering, hstep, hrest]

/-- Agreeing hosts have the same runs. -/
theorem runSession_of_agree {host host' : Host} (hagree : host.Agree host') (env : Environment)
    (ops : List Operation) : runSession host env ops = runSession host' env ops := by
  have hs : (RememberingHost.forgetful host).Simulation (.forgetful host') fun _ _ => True := by
    constructor
    · intro memory memory' _ line env'
      exact hagree line env'
    · intro memory memory' _ line env'
      trivial
  rw [← runRemembering_of_host, ← runRemembering_of_host]
  exact runRemembering_of_simulation hs trivial env ops

end Runs

/-- How a host reports a failure can not be observed. Sessions on agreeing hosts give the same
answers and end in the same environment; so do sessions on hosts with memories that are related and
stay so. A status other than zero means the same as an outcome and as a fault, so that running the
commands of processes in checked mode changes no result. A command that fails is never an error:
which error an operation meets is the same under all hosts, and a text that spells a command
substitution has a result on every host, whatever the host answers. -/
theorem session_ignores_failure_reports :
    (∀ host host' : Host, host.Agree host' → ∀ (env : Environment) (ops : List Operation),
      (runSession host env ops).result = (runSession host' env ops).result) ∧
    (∀ (σ τ : Type) (h : RememberingHost σ) (h' : RememberingHost τ) (R : σ → τ → Prop),
      h.Simulation h' R → ∀ memory memory', R memory memory' →
      ∀ (env : Environment) (ops : List Operation),
        (runRemembering h memory env ops).result = (runRemembering h' memory' env ops).result) ∧
    (∀ (code : Int32) (output : String), code ≠ 0 →
      observe (.ok ⟨code, output⟩) = observe (.error (.nonZeroExit code output))) ∧
    (∀ (execute : Executor) (config : Config) (env : Environment) (ops : List Operation),
      (runSession ((Host.process execute config).inMode .checked) env ops).result
        = (runSession ((Host.process execute config).inMode .unchecked) env ops).result) ∧
    (∀ (host host' : Host) (env : Environment) (op : Operation) (e : SyntaxError),
      (op.run host env).result.2 = .error e ↔ (op.run host' env).result.2 = .error e) ∧
    (∀ (host : Host) (env : Environment) (text line : String) (negated : Bool),
      Expression.parse text = .ok ⟨negated, .command line⟩ →
      (evaluateText host env text).result
        = .ok ⟨(observe (host .unchecked line env)).logical != negated,
            (observe (host .unchecked line env)).value⟩) := by
  refine ⟨?_, ?_, ?_, ?_, ?_, ?_⟩
  · intro host host' hagree env ops
    rw [runSession_of_agree hagree]
  · intro σ τ h h' R hs memory memory' hR env ops
    rw [runRemembering_of_simulation hs hR]
  · intro code output hcode
    exact observe_failure output hcode
  · intro execute config env ops
    rw [runSession_of_agree (agree_process_inMode execute config .checked),
      runSession_of_agree (agree_process_inMode execute config .unchecked)]
  · intro host host' env op e
    constructor
    · exact Operation.error_of_host host host' env
    · exact Operation.error_of_host host' host env
  · intro host env text line negated hparse
    exact evaluateText_of_command host env hparse

/-- A build that fails is reported as an outcome by one host and as a fault by the other. -/
theorem session_ignores_failure_reports_of_make :
    (Host.scripted [("make", .outcome ⟨2, "no rule"⟩)]).Agree
      (Host.scripted [("make", .fault (.nonZeroExit 2 "no rule"))]) ∧
    (runSession (Host.scripted [("make", .outcome ⟨2, "no rule"⟩)]) .empty
        [.assign "$ok, $out" (.text "$(make)"), .resolveLoop "for $w in $out"]).result
      = (runSession (Host.scripted [("make", .fault (.nonZeroExit 2 "no rule"))]) .empty
        [.assign "$ok, $out" (.text "$(make)"), .resolveLoop "for $w in $out"]).result := by
  have hagree : (Host.scripted [("make", .outcome ⟨2, "no rule"⟩)]).Agree
      (Host.scripted [("make", .fault (.nonZeroExit 2 "no rule"))]) := by
    intro line env
    simp only [Host.scripted, Bindings.find?]
    by_cases hline : "make" = line
    · simp only [if_pos hline, Reply.answer]
      exact observe_failure "no rule" (by decide)
    · simp only [if_neg hline]
  exact ⟨hagree, session_ignores_failure_reports.1 _ _ hagree _ _⟩

end CueScript
