import CueScript.Host.Json
import CueScript.Proofs.Json.Node

/-!
# CueScript.Proofs.Host.Outcome — outcomes survive being written and read

1. **Exit codes**: an exit code is read from the integer that it stands for, and from no other one.
2. **Shapes**: an outcome may be written as an object, with its members in either order, or as an
   array. All three are read alike.
3. **Documents**: every outcome is read back, and an integer without an exit code is refused.
-/

namespace CueScript

/-! ## Exit codes -/

/-- There is no exit code past 32 bits, and none is read for another integer. -/
theorem exitCode?_eq_some_iff {i : Int} {code : Int32} :
    exitCode? i = some code ↔ code.toInt = i := by
  rw [exitCode?]
  constructor
  · intro h
    split at h
    · next hrange =>
      obtain rfl := Option.some.inj h
      exact Int32.toInt_ofInt_of_le hrange.1 hrange.2
    · simp at h
  · rintro rfl
    rw [if_pos ⟨code.le_toInt, code.toInt_lt⟩, Int32.ofInt_toInt]

theorem exitCode?_eq_none_iff {i : Int} :
    exitCode? i = none ↔ i < -Int.pow 2 31 ∨ Int.pow 2 31 ≤ i := by
  rw [exitCode?]
  split
  · simp only [reduceCtorEq, false_iff]
    omega
  · simp only [true_iff]
    omega

namespace CommandOutcome

/-! ## Shapes -/

/-- The documents that an exit code and an output are written as. -/
inductive Written (code : Int) (output : String) : Json.Node → Prop
  | object : Written code output
      (.ofMembers [("exit_code", .ofInt code), ("output", .ofString output)])
  | swapped : Written code output
      (.ofMembers [("output", .ofString output), ("exit_code", .ofInt code)])
  | array : Written code output (.array [.ofInt code, .ofString output])

theorem written_toNode (o : CommandOutcome) : Written o.exitCode.toInt o.output o.toNode :=
  .object

variable {code : Int} {output text : String} {node : Json.Node}

@[simp] theorem exitCodeOf?_ofInt (code : Int) : exitCodeOf? (.ofInt code) = exitCode? code := by
  simp [Json.Node.ofInt, exitCodeOf?]

@[simp] theorem outputOf?_ofString (output : String) :
    outputOf? (.ofString output) = some output := by
  simp [Json.Node.ofString, outputOf?]

/-- All shapes are read alike: the exit code decides. -/
theorem Written.ofNode?_eq (h : Written code output node) :
    ofNode? node = (exitCode? code).map fun c => ⟨c, output⟩ := by
  cases hcode : exitCode? code
  all_goals
    cases h with
    | object => simp [Json.Node.ofMembers, ofNode?, keyedMembers?, member?, hcode]
    | swapped => simp [Json.Node.ofMembers, ofNode?, keyedMembers?, member?, hcode]
    | array => simp [ofNode?, hcode]

/-! ## Documents -/

theorem Written.ofJson?_eq (h : Written code output node) (hread : Json.Node.read? text = some node) :
    ofJson? text = (exitCode? code).map fun c => ⟨c, output⟩ := by
  rw [ofJson?, hread, Option.bind_some, h.ofNode?_eq]

/-- What is read has the exit code and the output that were written. -/
theorem Written.ofJson?_eq_some_iff (h : Written code output node)
    (hread : Json.Node.read? text = some node) {o : CommandOutcome} :
    ofJson? text = some o ↔ o.exitCode.toInt = code ∧ o.output = output := by
  rw [h.ofJson?_eq hread, Option.map_eq_some_iff]
  constructor
  · rintro ⟨c, hc, rfl⟩
    exact ⟨exitCode?_eq_some_iff.1 hc, rfl⟩
  · rintro ⟨hcode, rfl⟩
    exact ⟨o.exitCode, exitCode?_eq_some_iff.2 hcode, rfl⟩

/-- A run is read as a success for the exit code zero alone. -/
theorem succeeded_iff {o : CommandOutcome} : o.succeeded = true ↔ o.exitCode.toInt = 0 := by
  rw [succeeded, decide_eq_true_iff, ← Int32.toInt_inj]
  rfl

/-- Outcomes survive being written and read, and no integer is taken for another exit code. Every
outcome is read back from its document, and from every text of its three shapes. Of such a text with
any integer in the place of the exit code, an outcome is read when the integer has 32 bits, and then
with this very exit code, so that no failure turns into a success; for an integer outside the range
none is read. -/
theorem outcome_json_exact :
    (∀ o : CommandOutcome, ofJson? o.toNode.compact = some o) ∧
    (∀ (o : CommandOutcome) (node : Json.Node) (text : String),
      Written o.exitCode.toInt o.output node → Json.Node.read? text = some node →
      ofJson? text = some o) ∧
    (∀ (code : Int) (output : String) (node : Json.Node) (text : String),
      Written code output node → Json.Node.read? text = some node →
      (code < -Int.pow 2 31 ∨ Int.pow 2 31 ≤ code → ofJson? text = none) ∧
      (-Int.pow 2 31 ≤ code ∧ code < Int.pow 2 31 → ∃ o, ofJson? text = some o) ∧
      ∀ o, ofJson? text = some o →
        o.exitCode.toInt = code ∧ o.output = output ∧ (o.succeeded = true ↔ code = 0)) := by
  refine ⟨?_, ?_, ?_⟩
  · intro o
    rw [o.written_toNode.ofJson?_eq_some_iff (Json.Node.read?_compact o.toNode)]
    exact ⟨rfl, rfl⟩
  · intro o node text hnode hread
    rw [hnode.ofJson?_eq_some_iff hread]
    exact ⟨rfl, rfl⟩
  · intro code output node text hnode hread
    refine ⟨?_, ?_, ?_⟩
    · intro hrange
      rw [hnode.ofJson?_eq hread, exitCode?_eq_none_iff.2 hrange, Option.map_none]
    · rintro ⟨hlow, hhigh⟩
      refine ⟨⟨Int32.ofInt code, output⟩, ?_⟩
      rw [hnode.ofJson?_eq_some_iff hread]
      exact ⟨Int32.toInt_ofInt_of_le hlow hhigh, rfl⟩
    · intro o ho
      obtain ⟨hcode, houtput⟩ := (hnode.ofJson?_eq_some_iff hread).1 ho
      refine ⟨hcode, houtput, ?_⟩
      rw [succeeded_iff, hcode]

/-- The least exit code with an output that is escaped, in the other order, and an integer whose
lowest 32 bits are zero. -/
theorem outcome_json_exact_at_bounds :
    ofJson? (Json.Node.ofMembers [("output", .ofString "\x00\"\\é\n"),
      ("exit_code", .ofInt (-2147483648))]).compact = some ⟨-2147483648, "\x00\"\\é\n"⟩ ∧
    ofJson? (Json.Node.array [.ofInt 4294967296, .ofString ""]).compact = none := by
  constructor
  · exact outcome_json_exact.2.1 ⟨-2147483648, "\x00\"\\é\n"⟩ _ _ .swapped
      (Json.Node.read?_compact _)
  · exact (outcome_json_exact.2.2 4294967296 "" _ _ .array (Json.Node.read?_compact _)).1
      (.inr (by decide))

end CommandOutcome

end CueScript
