import CueScript.Host.Process
import CueScript.Proofs.Text.Lossy
import CueScript.Proofs.Text.Runs

/-!
# CueScript.Proofs.Host.Completion — how a finished process is reported

1. **Line ends**: a text is what stays and the longest run of line ends behind it.
2. **Reports**: `Config.Reports` says which exit code and which text a finished process is reported
   with. There is one of each.
3. **Completion**: both modes carry the same code and the same text. They differ only in how they
   report a code other than zero.
-/

namespace CueScript

/-! ## Line ends -/

/-- Line feeds and carriage returns, in any mixture. -/
def LineEnds (w : List Char) : Prop :=
  ∀ c ∈ w, c = '\n' ∨ c = '\r'

/-- No line feed or carriage return stands at the end. -/
def EndsInLine (s : List Char) : Prop :=
  ∀ c ∈ s.getLast?, c ≠ '\n' ∧ c ≠ '\r'

section LineEnds

variable {s t : List Char}

theorem lineEnds_nil : LineEnds [] := by
  simp [LineEnds]

/-- What is dropped is the longest run of line ends at the end. -/
theorem dropLineEnds_eq_iff :
    dropLineEnds s = t ↔ EndsInLine t ∧ ∃ w, LineEnds w ∧ s = t ++ w := by
  rw [dropLineEnds, List.reverse_eq_iff]
  constructor
  · intro h
    refine ⟨?_, (s.reverse.takeWhile fun c => c == '\n' || c == '\r').reverse, ?_, ?_⟩
    · intro c hc
      have hfront := Text.head?_dropWhile (fun c => c == '\n' || c == '\r') s.reverse c
      rw [h] at hfront
      simpa using hfront (by simpa using hc)
    · intro c hc
      have hrun := List.mem_takeWhile_imp (List.mem_reverse.1 hc)
      simpa using hrun
    · rw [← List.reverse_inj, List.reverse_append, List.reverse_reverse, ← h,
        List.takeWhile_append_dropWhile]
  · rintro ⟨hend, w, hw, rfl⟩
    rw [List.reverse_append]
    apply Text.dropWhile_run
    · intro c hc
      simpa using hw c (List.mem_reverse.1 hc)
    · intro c hc
      simpa using hend c (by simpa using hc)

/-- Every text is what stays and the line ends behind it. -/
theorem exists_dropLineEnds (s : List Char) :
    ∃ w, LineEnds w ∧ s = dropLineEnds s ++ w ∧ EndsInLine (dropLineEnds s) := by
  obtain ⟨hend, w, hw, hs⟩ := dropLineEnds_eq_iff.1 (rfl : dropLineEnds s = dropLineEnds s)
  exact ⟨w, hw, hs, hend⟩

end LineEnds

/-! ## Reports -/

/-- What a finished process wrote, as a text: all that its two streams show, one behind the other. If
the configuration says so, the longest run of line ends at the end is cut off, and nothing else. -/
def Config.Writes (config : Config) (f : Finished) (text : String) : Prop :=
  ∃ out err cut, Text.Utf8.Shows f.stdout out ∧ Text.Utf8.Shows f.stderr err ∧
    out ++ err = text.toList ++ cut ∧
    (config.stripTrailingNewlines = true → LineEnds cut ∧ EndsInLine text.toList) ∧
    (config.stripTrailingNewlines = false → cut = [])

/-- What a finished process is reported with: its exit code, or -1 when it was killed, and what it
wrote. -/
structure Config.Reports (config : Config) (f : Finished) (code : Int32) (text : String) : Prop where
  exited : ∀ c, f.code = some c → code = c
  killed : f.code = none → code = -1
  writes : config.Writes f text

section Reports

variable {config : Config} {f : Finished} {code : Int32} {text : String}

theorem Config.writes_iff : config.Writes f text ↔ config.outputOf f = text := by
  unfold Writes
  simp only [Text.Utf8.shows_iff, outputOf, ← String.toList_inj, String.toList_ofList]
  cases config.stripTrailingNewlines with
  | true =>
      rw [if_pos rfl, dropLineEnds_eq_iff]
      constructor
      · rintro ⟨_, _, cut, rfl, rfl, hsplit, hstrip, -⟩
        exact ⟨(hstrip rfl).2, cut, (hstrip rfl).1, hsplit⟩
      · rintro ⟨hend, cut, hcut, hsplit⟩
        exact ⟨_, _, cut, rfl, rfl, hsplit, fun _ => ⟨hcut, hend⟩, by simp⟩
  | false =>
      rw [if_neg (by decide)]
      constructor
      · rintro ⟨_, _, cut, rfl, rfl, hsplit, -, hkeep⟩
        rw [hsplit, hkeep rfl, List.append_nil]
      · intro hwritten
        exact ⟨_, _, [], rfl, rfl, by rw [hwritten, List.append_nil], by simp, fun _ => rfl⟩

/-- There is one code and one text to report. -/
theorem Config.reports_iff :
    config.Reports f code text ↔ f.code.getD (-1) = code ∧ config.outputOf f = text := by
  constructor
  · intro h
    refine ⟨?_, writes_iff.1 h.writes⟩
    cases hcode : f.code with
    | none => exact (h.killed hcode).symm
    | some c => exact (h.exited c hcode).symm
  · rintro ⟨rfl, hout⟩
    refine ⟨?_, ?_, writes_iff.2 hout⟩
    · intro c hcode
      rw [hcode, Option.getD_some]
    · intro hcode
      rw [hcode, Option.getD_none]

/-- Only an exit with code 0 is reported with that code. -/
theorem Finished.code_eq_zero_iff : f.code.getD (-1) = 0 ↔ f.code = some 0 := by
  cases f.code with
  | none => decide
  | some c => simp

end Reports

/-! ## Completion -/

section Completion

variable {execute : Executor} {config : Config} {line : String} {env : Environment} {f : Finished}

/-- A process that ends is an answer of the host. -/
theorem process_of_finished (h : execute (config.launch line env) = .ok f) (mode : CommandMode) :
    Host.process execute config mode line env = config.complete mode f := by
  simp only [Host.process, h]

theorem Config.complete_unchecked :
    config.complete .unchecked f = .ok ⟨f.code.getD (-1), config.outputOf f⟩ := by
  simp [complete]

theorem Config.complete_checked :
    config.complete .checked f = if f.code.getD (-1) = 0 then .ok ⟨0, config.outputOf f⟩
      else .error (.nonZeroExit (f.code.getD (-1)) (config.outputOf f)) := by
  by_cases hcode : f.code.getD (-1) = 0
  · simp [complete, hcode]
  · simp [complete, hcode]

/-- What was written as a text with nothing on the error stream is the text, up to a cut. -/
theorem Config.Reports.of_text {code : Int32} {text s : String} (h : config.Reports f code text)
    (hout : f.stdout = Text.Utf8.encode s.toList) (herr : f.stderr = []) :
    (config.stripTrailingNewlines = false → text = s) ∧
    (config.stripTrailingNewlines = true →
      ∃ cut, LineEnds cut ∧ s.toList = text.toList ++ cut ∧ EndsInLine text.toList) := by
  rcases h.writes with ⟨out, err, cut, hshown, hnothing, hsplit, hstrip, hkeep⟩
  obtain rfl : s.toList = out := by
    rw [← hshown.decodeLossy_eq, hout, Text.Utf8.decodeLossy_encode]
  obtain rfl : [] = err := by
    rw [← hnothing.decodeLossy_eq, herr]
    rfl
  rw [List.append_nil] at hsplit
  refine ⟨?_, ?_⟩
  · intro hflag
    rw [← String.toList_inj, hsplit, hkeep hflag, List.append_nil]
  · intro hflag
    exact ⟨cut, (hstrip hflag).1, hsplit, (hstrip hflag).2⟩

end Completion

/-- How the host reports a process that has ended, for every configuration, command line and
environment. There is one code and one text to report. Without checking they are the outcome; with
checking the outcome is the same for the code 0, and for any other code a fault carries the same code
and the same text. A success is reported exactly when the process exited with 0. A text that was
written as it is comes back, up to the line ends at its end, so that no other character is lost. -/
theorem finished_process_reported (execute : Executor) (config : Config) (line : String)
    (env : Environment) (f : Finished) (hrun : execute (config.launch line env) = .ok f) :
    ∃ code text, config.Reports f code text ∧
      (∀ code' text', config.Reports f code' text' → code' = code ∧ text' = text) ∧
      Host.process execute config .unchecked line env = .ok ⟨code, text⟩ ∧
      (code = 0 → Host.process execute config .checked line env = .ok ⟨code, text⟩) ∧
      (code ≠ 0 →
        Host.process execute config .checked line env = .error (.nonZeroExit code text)) ∧
      ((CommandOutcome.mk code text).succeeded = true ↔ f.code = some 0) ∧
      ((∃ o, Host.process execute config .checked line env = .ok o) ↔ f.code = some 0) ∧
      (∀ s : String, f.stdout = Text.Utf8.encode s.toList → f.stderr = [] →
        (config.stripTrailingNewlines = false → text = s) ∧
        (config.stripTrailingNewlines = true →
          ∃ cut, LineEnds cut ∧ s.toList = text.toList ++ cut ∧ EndsInLine text.toList)) := by
  have hreports : config.Reports f (f.code.getD (-1)) (config.outputOf f) :=
    Config.reports_iff.2 ⟨rfl, rfl⟩
  refine ⟨_, _, hreports, ?_, ?_, ?_, ?_, ?_, ?_, ?_⟩
  · intro code' text' h
    obtain ⟨rfl, rfl⟩ := Config.reports_iff.1 h
    exact ⟨rfl, rfl⟩
  · rw [process_of_finished hrun, Config.complete_unchecked]
  · intro hcode
    rw [process_of_finished hrun, Config.complete_checked, if_pos hcode, hcode]
  · intro hcode
    rw [process_of_finished hrun, Config.complete_checked, if_neg hcode]
  · rw [← Finished.code_eq_zero_iff]
    simp [CommandOutcome.succeeded]
  · rw [process_of_finished hrun, Config.complete_checked, ← Finished.code_eq_zero_iff]
    by_cases hcode : f.code.getD (-1) = 0
    · simp [hcode]
    · simp [hcode]
  · intro s hout herr
    exact hreports.of_text hout herr

/-- A process that was killed in the middle of a character, with line ends on both streams. -/
theorem finished_process_reported_of_killed :
    Host.process (fun _ => .ok ⟨none, [0x61, 0xE2, 0x82, 0x0A], [0x0D, 0x0A]⟩) .default .checked
        "tail log" .empty = .error (.nonZeroExit (-1) "a\uFFFD") ∧
    Host.process (fun _ => .ok ⟨none, [0x61, 0xE2, 0x82, 0x0A], [0x0D, 0x0A]⟩) .default .unchecked
        "tail log" .empty = .ok ⟨-1, "a\uFFFD"⟩ := by
  obtain ⟨code, text, hreports, -, hplain, -, hfault, -⟩ := finished_process_reported
    (fun _ => .ok ⟨none, [0x61, 0xE2, 0x82, 0x0A], [0x0D, 0x0A]⟩) .default "tail log" .empty _ rfl
  obtain ⟨rfl, htext⟩ := Config.reports_iff.1 hreports
  have hshown : "a\uFFFD" = text := htext
  rw [← hshown] at hplain hfault
  exact ⟨hfault (by decide), hplain⟩

end CueScript
