import CueScript.Assignment
import CueScript.Proofs.Bindings

/-!
# CueScript.Proofs.Assignment — assignments bind all of their targets or nothing

1. **Binding**: binding targets is inserting one pair for each name.
2. **Assignments**: an assignment fails with the first error of its two sides and leaves the
   environment as it is, or it binds exactly its targets.
-/

namespace CueScript

/-! ## Binding -/

/-- The pairs that an assignment inserts, in order. -/
def Targets.pairs (r : Evaluation) : Targets → List (String × Value)
  | value name => [(name, r.value)]
  | logicalAndValue ok name => [(ok, .bool r.logical), (name, r.value)]

theorem Targets.keys_pairs (targets : Targets) (r : Evaluation) :
    Bindings.keys (targets.pairs r) = targets.names := by
  cases targets with
  | value name => rfl
  | logicalAndValue ok name => rfl

theorem Targets.bind_eq (targets : Targets) (r : Evaluation) (env : Environment) :
    targets.bind r env = ⟨Bindings.insertAll (targets.pairs r) env.bindings⟩ := by
  cases targets with
  | value name => rfl
  | logicalAndValue ok name => rfl

variable (targets : Targets) (r : Evaluation) (env : Environment)

/-- The names of the targets have the last value that was written to them. -/
theorem get?_bind (name : String) :
    (targets.bind r env).get? name
      = (Bindings.find? name (targets.pairs r).reverse).or (env.get? name) := by
  rw [Targets.bind_eq]
  exact Bindings.find?_insertAll name (targets.pairs r) env.bindings

/-- No other name is touched. -/
theorem get?_bind_of_not_mem {name : String} (h : name ∉ targets.names) :
    (targets.bind r env).get? name = env.get? name := by
  rw [Targets.bind_eq]
  rw [← targets.keys_pairs r] at h
  exact Bindings.find?_insertAll_of_not_mem h env.bindings

/-- New names go to the end. -/
theorem names_bind :
    (targets.bind r env).names = env.names ++ Bindings.newKeys env.names targets.names := by
  rw [Targets.bind_eq, ← targets.keys_pairs r]
  exact Bindings.keys_insertAll (targets.pairs r) env.bindings

/-! ## Assignments -/

variable {host : Host} {env} {lhs : String} {rhs : Value} {e : SyntaxError} {targets r}

/-- Bad targets are reported before anything is evaluated. -/
theorem assign_of_bad_targets (h : Targets.parse lhs = .error e) :
    assign host env lhs rhs = .quiet (env, .error e) := by
  rw [assign, h]

/-- A right-hand side that fails leaves the environment alone. -/
theorem assign_of_bad_value (ht : Targets.parse lhs = .ok targets)
    (h : (evaluate host env rhs).result = .error e) :
    assign host env lhs rhs = ⟨(env, .error e), (evaluate host env rhs).calls⟩ := by
  rw [assign, ht]
  simp only [Traced.map, h]

/-- The results of the right-hand side are bound, whatever its logical result is. -/
theorem assign_of_value (ht : Targets.parse lhs = .ok targets)
    (h : (evaluate host env rhs).result = .ok r) :
    assign host env lhs rhs = ⟨(targets.bind r env, .ok ()), (evaluate host env rhs).calls⟩ := by
  rw [assign, ht]
  simp only [Traced.map, h]

/-- An assignment that succeeds has good targets and a right-hand side with results, which it
binds. -/
theorem exists_of_assign {env' : Environment}
    (h : (assign host env lhs rhs).result = (env', .ok ())) :
    ∃ targets r, Targets.parse lhs = .ok targets ∧ (evaluate host env rhs).result = .ok r ∧
      env' = targets.bind r env := by
  cases ht : Targets.parse lhs with
  | error e =>
      rw [assign_of_bad_targets ht] at h
      exact absurd (congrArg Prod.snd h) (by simp)
  | ok targets =>
      cases hr : (evaluate host env rhs).result with
      | error e =>
          rw [assign_of_bad_value ht hr] at h
          exact absurd (congrArg Prod.snd h) (by simp)
      | ok r =>
          rw [assign_of_value ht hr] at h
          exact ⟨targets, r, rfl, rfl, (congrArg Prod.fst h).symm⟩

/-- An assignment is all or nothing. It fails with the error of its targets, or else with that of its
right-hand side, and leaves the environment as it is, order included. Otherwise it succeeds: the
results, evaluated in the old environment, are bound to its targets from left to right, every other
name keeps its value, bound names keep their places, and the new names of the targets follow in the
order in which they are written. -/
theorem assign_all_or_nothing (host : Host) (env : Environment) (lhs : String) (rhs : Value) :
    (∀ e, Targets.parse lhs = .error e → (assign host env lhs rhs).result = (env, .error e)) ∧
    (∀ targets e, Targets.parse lhs = .ok targets → (evaluate host env rhs).result = .error e →
      (assign host env lhs rhs).result = (env, .error e)) ∧
    (∀ targets r, Targets.parse lhs = .ok targets → (evaluate host env rhs).result = .ok r →
      ∃ env', (assign host env lhs rhs).result = (env', .ok ()) ∧
        (∀ n, targets = .value n → env'.get? n = some r.value) ∧
        (∀ a b, targets = .logicalAndValue a b →
          env'.get? b = some r.value ∧ (a ≠ b → env'.get? a = some (.bool r.logical))) ∧
        (∀ n, n ∉ targets.names → env'.get? n = env.get? n) ∧
        ∃ fresh, env'.names = env.names ++ fresh ∧ fresh.Sublist targets.names ∧ fresh.Nodup ∧
          ∀ n, n ∈ fresh ↔ n ∈ targets.names ∧ n ∉ env.names) := by
  refine ⟨?_, ?_, ?_⟩
  · intro e ht
    rw [assign_of_bad_targets ht]
    rfl
  · intro targets e ht hr
    rw [assign_of_bad_value ht hr]
  · intro targets r ht hr
    refine ⟨targets.bind r env, ?_, ?_, ?_, ?_, ?_⟩
    · rw [assign_of_value ht hr]
    · rintro n rfl
      simp [get?_bind, Targets.pairs, Bindings.find?]
    · -- the value is written last, so it wins when the two names are one
      rintro a b rfl
      constructor
      · simp [get?_bind, Targets.pairs, Bindings.find?]
      · intro hab
        simp [get?_bind, Targets.pairs, Bindings.find?, Ne.symm hab]
    · intro n hn
      exact get?_bind_of_not_mem targets r env hn
    · exact ⟨Bindings.newKeys env.names targets.names, names_bind targets r env,
        Bindings.newKeys_sublist env.names targets.names,
        Bindings.nodup_newKeys env.names targets.names, fun n => Bindings.mem_newKeys⟩

end CueScript
