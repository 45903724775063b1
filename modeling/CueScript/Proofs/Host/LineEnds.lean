import CueScript.Proofs.Answers
import CueScript.Proofs.Condition
import CueScript.Proofs.Host.Completion
import CueScript.Proofs.Loops

/-!
# CueScript.Proofs.Host.LineEnds — dropping line ends never changes the control flow

Two hosts run the same processes; one of them drops the line ends at the end of each output.

1. **Answers**: their answers have the same success, and the texts differ by a run of line ends at
   the end.
2. **Consumers**: only the value of a command shows the difference. A condition looks at the success
   alone, and a loop at the words, which no line end at the end can change.
-/

namespace CueScript

/-! ## Answers -/

/-- The configuration with line ends dropped at the end of each output. -/
def Config.stripping (config : Config) : Config :=
  { config with stripTrailingNewlines := true }

/-- The configuration with all line ends kept. -/
def Config.keeping (config : Config) : Config :=
  { config with stripTrailingNewlines := false }

/-- Each answer of the second host means what that of the first one means, with line ends behind the
text. -/
def Host.TrailedBy (host host' : Host) : Prop :=
  ∀ line env, ∃ succeeded s w, LineEnds w ∧
    observe (host .unchecked line env) = ⟨succeeded, .text s⟩ ∧
    observe (host' .unchecked line env) = ⟨succeeded, .text (s ++ String.ofList w)⟩

/-- The configuration decides about line ends only after a process has ended. -/
theorem trailedBy_process (execute : Executor) (config : Config) :
    (Host.process execute config.stripping).TrailedBy (Host.process execute config.keeping) := by
  intro line env
  have hlaunch : config.keeping.launch line env = config.stripping.launch line env := rfl
  cases hrun : execute (config.stripping.launch line env) with
  | error reason =>
      -- the shell could not be started, and nothing was written
      refine ⟨false, "", [], lineEnds_nil, ?_, ?_⟩
      · simp only [Host.process, hrun]
        rfl
      · simp only [Host.process, hlaunch, hrun]
        rfl
  | ok f =>
      have hrun' : execute (config.keeping.launch line env) = .ok f := by rw [hlaunch, hrun]
      rw [process_of_finished hrun, process_of_finished hrun', Config.complete_unchecked,
        Config.complete_unchecked]
      rcases exists_dropLineEnds (Text.Utf8.decodeLossy f.stdout ++ Text.Utf8.decodeLossy f.stderr)
        with ⟨w, hw, hsplit, -⟩
      have hkept : config.keeping.outputOf f
          = config.stripping.outputOf f ++ String.ofList w := by
        rw [← String.toList_inj]
        simpa [Config.outputOf, Config.stripping, Config.keeping] using hsplit
      refine ⟨_, _, w, hw, rfl, ?_⟩
      rw [observe, hkept]
      rfl

/-! ## Consumers -/

theorem LineEnds.blanks {w : List Char} (hw : LineEnds w) : Text.Blanks w := by
  intro c hc
  rcases hw c hc with rfl | rfl
  · decide
  · decide

/-- Line ends at the end of a text are not seen by a loop. -/
theorem Loop.ofValue_lineEnds {w : List Char} (hw : LineEnds w) (vars : ControlVars)
    (expression s : String) :
    ofValue vars expression (.text (s ++ String.ofList w))
      = ofValue vars expression (.text s) := by
  cases vars with
  | single name =>
      have hwords : Text.words (s ++ String.ofList w).toList = Text.words s.toList := by
        rw [String.toList_append, String.toList_ofList, Text.words_append_blanks hw.blanks]
      simp only [ofValue, hwords]
  | pair key value => rfl

section Consumers

variable {host host' : Host} (h : host.TrailedBy host') (env : Environment)

include h

/-- An expression has the same results under both hosts, unless it is a command. Then the line ends
are behind its value. -/
theorem evaluateText_of_trailedBy (text : String) :
    evaluateText host env text = evaluateText host' env text ∨
    ∃ negated line logical s w, Expression.parse text = .ok ⟨negated, .command line⟩ ∧ LineEnds w ∧
      evaluateText host env text = ⟨.ok ⟨logical, .text s⟩, [⟨.unchecked, line⟩]⟩ ∧
      evaluateText host' env text
        = ⟨.ok ⟨logical, .text (s ++ String.ofList w)⟩, [⟨.unchecked, line⟩]⟩ := by
  simp only [evaluateText]
  cases Expression.parse text with
  | error e => exact .inl rfl
  | ok e =>
      rcases e with ⟨negated, form⟩
      cases form with
      | lookup name => exact .inl rfl
      | defined name => exact .inl rfl
      | command line =>
          rcases h line env with ⟨succeeded, s, w, hw, hanswer, hanswer'⟩
          refine .inr ⟨negated, line, succeeded != negated, s, w, rfl, hw, ?_, ?_⟩
          · simp only [Expression.evaluate, Form.evaluate, hanswer]
            rfl
          · simp only [Expression.evaluate, Form.evaluate, hanswer']
            rfl

/-- Only the logical result of a condition counts, and that is the same. -/
theorem resolveCondition_of_trailedBy {β : Type} (ifSection : Section β)
    (next : Option (Section β)) :
    resolveCondition host env ifSection next = resolveCondition host' env ifSection next := by
  cases hread : Syntax.ifCondition ifSection.header with
  | error e => rw [resolveCondition_of_bad_header hread, resolveCondition_of_bad_header hread]
  | ok condition =>
      rw [resolveCondition_of_header hread, resolveCondition_of_header hread]
      rcases evaluateText_of_trailedBy h env condition with
        heq | ⟨_, _, _, _, _, -, -, heval, heval'⟩
      · rw [heq]
      · rw [heval, heval']
        rfl

/-- A loop runs over the words of a text, and refuses every text when it needs a mapping. -/
theorem resolveLoop_of_trailedBy (header : String) :
    resolveLoop host env header = resolveLoop host' env header := by
  cases hparse : LoopHeader.parse header with
  | error e => rw [resolveLoop_of_bad_header hparse, resolveLoop_of_bad_header hparse]
  | ok parsed =>
      rcases parsed with ⟨vars, expression⟩
      rw [resolveLoop_of_header hparse, resolveLoop_of_header hparse]
      rcases evaluateText_of_trailedBy h env expression with
        heq | ⟨_, _, logical, s, w, -, hw, heval, heval'⟩
      · rw [heq]
      · have hitems := Loop.ofValue_lineEnds hw vars expression s
        simp only [heval, heval', Traced.map, Except.bind, hitems]

end Consumers

/-- Dropping line ends never changes the control flow. Two hosts run the same processes, whatever
these write and however they end, with configurations that differ in `stripTrailingNewlines` only.
Every text is evaluated with the same calls. It fails with the same error, or it has the same logical
result and the same value, up to one case: the text is a command, and what the second host returns
has one more run of line ends at the end. Conditions and loops have the same results under both, for
all headers: the same branch, the same control variables and items, the same errors. -/
theorem line_ends_keep_control_flow (execute : Executor) (config : Config) (env : Environment) :
    (∀ text : String,
      (evaluateText (Host.process execute config.stripping) env text).calls
        = (evaluateText (Host.process execute config.keeping) env text).calls ∧
      ((∃ e, (evaluateText (Host.process execute config.stripping) env text).result = .error e ∧
        (evaluateText (Host.process execute config.keeping) env text).result = .error e) ∨
      ∃ logical v v',
        (evaluateText (Host.process execute config.stripping) env text).result
          = .ok ⟨logical, v⟩ ∧
        (evaluateText (Host.process execute config.keeping) env text).result
          = .ok ⟨logical, v'⟩ ∧
        (v' = v ∨ ∃ negated line s w, Expression.parse text = .ok ⟨negated, .command line⟩ ∧
          LineEnds w ∧ v = .text s ∧ v' = .text (s ++ String.ofList w)))) ∧
    (∀ (β : Type) (ifSection : Section β) (next : Option (Section β)),
      resolveCondition (Host.process execute config.stripping) env ifSection next
        = resolveCondition (Host.process execute config.keeping) env ifSection next) ∧
    (∀ header : String,
      resolveLoop (Host.process execute config.stripping) env header
        = resolveLoop (Host.process execute config.keeping) env header) := by
  have h := trailedBy_process execute config
  refine ⟨?_, ?_, ?_⟩
  · intro text
    rcases evaluateText_of_trailedBy h env text with
      heq | ⟨negated, line, logical, s, w, hparse, hw, heval, heval'⟩
    · rw [← heq]
      refine ⟨rfl, ?_⟩
      cases (evaluateText (Host.process execute config.stripping) env text).result with
      | error e => exact .inl ⟨e, rfl, rfl⟩
      | ok r => exact .inr ⟨r.logical, r.value, r.value, rfl, rfl, .inl rfl⟩
    · rw [heval, heval']
      exact ⟨rfl, .inr ⟨logical, _, _, rfl, rfl, .inr ⟨negated, line, s, w, hparse, hw, rfl, rfl⟩⟩⟩
  · intro β ifSection next
    exact resolveCondition_of_trailedBy h env ifSection next
  · intro header
    exact resolveLoop_of_trailedBy h env header

end CueScript
