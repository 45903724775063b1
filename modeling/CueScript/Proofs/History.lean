import Mathlib.Data.Finset.Card
import CueScript.Host.Scripted
import CueScript.Proofs.Assignment
import CueScript.Proofs.Refusals

/-!
# CueScript.Proofs.History — an environment is the history of its bindings

1. **Histories**: `Environment.bindAll` makes bindings in order. Names stay where they were bound
   first and have the value that was bound last.
2. **Bindings of a run**: `Operation.bound` lists what an operation binds and `boundBy` what a run
   does. A run ends in the environment that its bindings make of the first one.
3. **Failures**: operations that fail leave no trace, so they can be taken out of a run.
4. **Invariant**: `run_keeps_history` puts the three together.
-/

namespace CueScript

/-! ## Histories -/

namespace Environment

def bindAll (env : Environment) (ps : List (String × Value)) : Environment :=
  ⟨Bindings.insertAll ps env.bindings⟩

theorem bindAll_append (env : Environment) (ps qs : List (String × Value)) :
    env.bindAll (ps ++ qs) = (env.bindAll ps).bindAll qs := by
  rw [bindAll, Bindings.insertAll_append]
  rfl

variable {env : Environment} {ps : List (String × Value)}

/-- Bound names keep their places and new ones follow. -/
theorem names_bindAll :
    (env.bindAll ps).names = env.names ++ Bindings.newKeys env.names (Bindings.keys ps) :=
  Bindings.keys_insertAll ps env.bindings

theorem mem_names_bindAll {name : String} :
    name ∈ (env.bindAll ps).names ↔ name ∈ env.names ∨ name ∈ Bindings.keys ps := by
  rw [names_bindAll, List.mem_append, Bindings.mem_newKeys]
  by_cases hname : name ∈ env.names
  · simp [hname]
  · simp [hname]

theorem nodup_names_bindAll (h : env.names.Nodup) : (env.bindAll ps).names.Nodup :=
  Bindings.nodup_keys_insertAll ps h

/-- The last binding of a name counts. -/
theorem get?_bindAll_of_last {earlier later : List (String × Value)} {name : String} {v : Value}
    (h : name ∉ Bindings.keys later) :
    (env.bindAll (earlier ++ (name, v) :: later)).get? name = some v :=
  Bindings.find?_insertAll_of_last h env.bindings

/-- A name that is not bound keeps its value. -/
theorem get?_bindAll_of_not_mem {name : String} (h : name ∉ Bindings.keys ps) :
    (env.bindAll ps).get? name = env.get? name :=
  Bindings.find?_insertAll_of_not_mem h env.bindings

theorem contains_iff {name : String} : env.contains name = true ↔ name ∈ env.names :=
  Bindings.find?_isSome_iff name env.bindings

/-- Every name is counted once. -/
theorem size_eq_card (h : env.names.Nodup) : env.size = env.names.toFinset.card := by
  rw [List.toFinset_card_of_nodup h, names, Bindings.keys, List.length_map]
  rfl

end Environment

/-! ## Bindings of a run -/

/-- What an operation binds, in order: the targets of an assignment that succeeds, or a variable
that is set. -/
def Operation.bound (host : Host) (env : Environment) : Operation → List (String × Value)
  | .set name value => [(name, value)]
  | .assign lhs rhs =>
    match Targets.parse lhs, (CueScript.evaluate host env rhs).result with
    | .ok targets, .ok r => targets.pairs r
    | _, _ => []
  | .evaluate _ | .evaluateText _ | .evaluateParsed _ => []
  | .resolveLoop _ | .resolveCondition _ _ => []

/-- An operation leaves the environment that its bindings make. -/
theorem Operation.env_run (host : Host) (env : Environment) (op : Operation) :
    (op.run host env).result.1 = env.bindAll (op.bound host env) := by
  cases op with
  | assign lhs rhs =>
      -- either side may fail, and then nothing is bound
      simp only [run, Traced.result_map, bound]
      cases ht : Targets.parse lhs with
      | error e =>
          rw [assign_of_bad_targets ht]
          rfl
      | ok targets =>
          cases hr : (CueScript.evaluate host env rhs).result with
          | error e =>
              rw [assign_of_bad_value ht hr]
              rfl
          | ok r =>
              rw [assign_of_value ht hr]
              exact targets.bind_eq r env
  | evaluate value => rfl
  | evaluateText text => rfl
  | evaluateParsed expression => rfl
  | resolveLoop header => rfl
  | resolveCondition ifSection next => rfl
  | set name value => rfl

section Runs

variable {σ : Type} (h : RememberingHost σ)

def boundBy (memory : σ) (env : Environment) : List Operation → List (String × Value)
  | [] => []
  | op :: ops =>
    let first := op.run (h.recalling memory) env
    op.bound (h.recalling memory) env
      ++ boundBy (h.after env memory first.calls) first.result.1 ops

def reached (memory : σ) (env : Environment) (ops : List Operation) : Environment :=
  (runRemembering h memory env ops).result.1

/-- A run ends in the environment that its bindings make. -/
theorem reached_eq (memory : σ) (env : Environment) (ops : List Operation) :
    reached h memory env ops = env.bindAll (boundBy h memory env ops) := by
  -- the bindings of the first operation come before those of the rest, made in what it leaves
  induction ops generalizing memory env with
  | nil => rfl
  | cons op ops ih =>
      have hrest := ih (h.after env memory (op.run (h.recalling memory) env).calls)
        (op.run (h.recalling memory) env).result.1
      rw [boundBy, Environment.bindAll_append, ← Operation.env_run]
      exact hrest

/-- What the first part of a run binds is the first part of what the run binds. -/
theorem boundBy_prefix (memory : σ) (env : Environment) (before after : List Operation) :
    boundBy h memory env before <+: boundBy h memory env (before ++ after) := by
  induction before generalizing memory env with
  | nil => exact List.nil_prefix
  | cons op before ih =>
      -- both runs go on from the same memory and environment
      rw [List.cons_append, boundBy, boundBy]
      exact (List.prefix_append_right_inj _).2 (ih _ _)

/-- No name is removed on the way. -/
theorem names_reached_prefix (memory : σ) (env : Environment) (before after : List Operation) :
    (reached h memory env before).names <+: (reached h memory env (before ++ after)).names := by
  rcases boundBy_prefix h memory env before after with ⟨more, hmore⟩
  rw [reached_eq, reached_eq, ← hmore, Environment.bindAll_append]
  -- what comes later is bound in the environment in between
  generalize env.bindAll (boundBy h memory env before) = middle
  rw [Environment.names_bindAll]
  exact List.prefix_append _ _

/-- Variables that are set one by one. -/
theorem boundBy_set (memory : σ) (env : Environment) (ps : List (String × Value)) :
    boundBy h memory env (ps.map fun p => .set p.1 p.2) = ps := by
  induction ps generalizing memory env with
  | nil => rfl
  | cons p ps ih =>
      rw [List.map_cons, boundBy, ih]
      rfl

/-! ## Failures -/

def succeeding (ops : List Operation) (answers : List (Except SyntaxError Answer)) :
    List Operation :=
  ((ops.zip answers).filter fun p => p.2.isOk).map Prod.fst

@[simp] theorem succeeding_cons_ok (op : Operation) (ops : List Operation) (a : Answer)
    (answers : List (Except SyntaxError Answer)) :
    succeeding (op :: ops) (.ok a :: answers) = op :: succeeding ops answers := rfl

@[simp] theorem succeeding_cons_error (op : Operation) (ops : List Operation) (e : SyntaxError)
    (answers : List (Except SyntaxError Answer)) :
    succeeding (op :: ops) (.error e :: answers) = succeeding ops answers := rfl

/-- An operation that fails is quiet, unless it is a loop. -/
theorem Operation.run_of_error {host : Host} {env : Environment} {op : Operation} {e : SyntaxError}
    (hop : ∀ header, op ≠ .resolveLoop header) (he : (op.run host env).result.2 = .error e) :
    op.run host env = .quiet (env, .error e) := by
  rcases op.exists_refused he with ⟨arg, hrefused⟩
  rcases hrefused.reports_or_value with hreports | ⟨_, _, _, _, hloop, _⟩
  · exact hrefused.run_eq hreports.static
  · exact absurd hloop (hop arg)

variable {h}

/-- Without a first operation that fails, the rest of the run is the same. -/
theorem runRemembering_cons_of_error {memory : σ} {env : Environment} {op : Operation}
    {ops : List Operation} {e : SyntaxError} (hop : ∀ header, op ≠ .resolveLoop header)
    (he : (op.run (h.recalling memory) env).result.2 = .error e) :
    runRemembering h memory env (op :: ops) =
      (runRemembering h memory env ops).map fun r => (r.1, .error e :: r.2) := by
  rw [runRemembering, Operation.run_of_error hop he]
  rfl

/-- One failing operation can be taken out of a run: the other answers, the calls and the
environment at the end stay the same. -/
theorem runRemembering_erase {memory : σ} {env : Environment} {before after : List Operation}
    {op : Operation} {e : SyntaxError} (hop : ∀ header, op ≠ .resolveLoop header)
    (he : (runRemembering h memory env (before ++ op :: after)).result.2[before.length]?
      = some (.error e)) :
    runRemembering h memory env (before ++ after) =
      (runRemembering h memory env (before ++ op :: after)).map
        fun r => (r.1, r.2.eraseIdx before.length) := by
  induction before generalizing memory env with
  | nil =>
      have hfirst : (op.run (h.recalling memory) env).result.2 = .error e := by
        simpa [runRemembering] using he
      -- it was asked for nothing, so the rest starts from the same memory without it
      rw [List.nil_append, List.nil_append, runRemembering_cons_of_error hop hfirst]
      rfl
  | cons first before ih =>
      -- the operation stands in the rest, one place further to the front
      rw [List.cons_append, runRemembering, List.length_cons, List.getElem?_cons_succ] at he
      rw [List.cons_append, List.cons_append, runRemembering, runRemembering, ih he]
      rfl

/-- All failing operations can be taken out of a run at once. -/
theorem reached_succeeding {memory : σ} {env : Environment} {ops : List Operation}
    (hops : ∀ op ∈ ops, ∀ header, op ≠ .resolveLoop header) :
    reached h memory env (succeeding ops (runRemembering h memory env ops).result.2)
      = reached h memory env ops := by
  induction ops generalizing memory env with
  | nil => rfl
  | cons op ops ih =>
      have hrest : ∀ op' ∈ ops, ∀ header, op' ≠ .resolveLoop header :=
        fun op' hop' => hops op' (List.mem_cons_of_mem op hop')
      cases ha : (op.run (h.recalling memory) env).result.2 with
      | error e =>
          have hrun : runRemembering h memory env (op :: ops)
              = (runRemembering h memory env ops).map fun r => (r.1, .error e :: r.2) :=
            runRemembering_cons_of_error (hops op List.mem_cons_self) ha
          rw [reached, reached, hrun, Traced.result_map, succeeding_cons_error]
          exact ih hrest
      | ok answer =>
          -- the operation stays, and the rest follows from what it leaves
          have hanswers : (runRemembering h memory env (op :: ops)).result.2
              = .ok answer :: (runRemembering h
                  (h.after env memory (op.run (h.recalling memory) env).calls)
                  (op.run (h.recalling memory) env).result.1 ops).result.2 := by
            rw [runRemembering, ha]
          rw [hanswers, succeeding_cons_ok]
          exact ih hrest

end Runs

/-! ## Invariant -/

/-- What an environment looks like after a run. Names stay distinct, and none is removed on the way.
The first names keep their order and their places in front; the new ones follow in the order in
which they were bound first. A name has the value that was bound last, or its first one; the names
are the first ones and those that were bound, each counted once. Operations that fail leave no
trace: one of them, or all at once, can be taken out of the run; loops are set aside here, since
they may call the host before they fail. An environment that is built from pairs is the one in which
the pairs are set one by one. -/
theorem run_keeps_history {σ : Type} (h : RememberingHost σ) (memory : σ) (env : Environment)
    (hdistinct : env.names.Nodup) (ops : List Operation) :
    (reached h memory env ops).names.Nodup ∧
    (∀ before after, ops = before ++ after →
      (reached h memory env before).names <+: (reached h memory env ops).names) ∧
    (∃ fresh, (reached h memory env ops).names = env.names ++ fresh ∧
      (∀ n, n ∈ fresh ↔ n ∈ Bindings.keys (boundBy h memory env ops) ∧ n ∉ env.names) ∧
      fresh.Pairwise fun n m => (Bindings.keys (boundBy h memory env ops)).idxOf n
        < (Bindings.keys (boundBy h memory env ops)).idxOf m) ∧
    (∀ n v earlier later, boundBy h memory env ops = earlier ++ (n, v) :: later →
      n ∉ Bindings.keys later → (reached h memory env ops).get? n = some v) ∧
    (∀ n, n ∉ Bindings.keys (boundBy h memory env ops) →
      (reached h memory env ops).get? n = env.get? n) ∧
    (∀ n, (reached h memory env ops).contains n = true ↔
      n ∈ env.names ∨ n ∈ Bindings.keys (boundBy h memory env ops)) ∧
    (reached h memory env ops).size
      = (env.names ++ Bindings.keys (boundBy h memory env ops)).toFinset.card ∧
    (∀ before op after e, ops = before ++ op :: after → (∀ header, op ≠ .resolveLoop header) →
      (runRemembering h memory env ops).result.2[before.length]? = some (.error e) →
      runRemembering h memory env (before ++ after) =
        (runRemembering h memory env ops).map fun r => (r.1, r.2.eraseIdx before.length)) ∧
    ((∀ op ∈ ops, ∀ header, op ≠ .resolveLoop header) →
      reached h memory env (succeeding ops (runRemembering h memory env ops).result.2)
        = reached h memory env ops) ∧
    (∀ ps : List (String × Value),
      reached h memory .empty (ps.map fun p => .set p.1 p.2) = .ofPairs ps) := by
  refine ⟨?_, ?_, ?_, ?_, ?_, ?_, ?_, ?_, reached_succeeding, ?_⟩
  · rw [reached_eq]
    exact Environment.nodup_names_bindAll hdistinct
  · rintro before after rfl
    exact names_reached_prefix h memory env before after
  · rw [reached_eq]
    exact ⟨_, Environment.names_bindAll, fun n => Bindings.mem_newKeys,
      Bindings.newKeys_pairwise _ _⟩
  · intro n v earlier later hbound hlater
    rw [reached_eq, hbound]
    exact Environment.get?_bindAll_of_last hlater
  · intro n hn
    rw [reached_eq]
    exact Environment.get?_bindAll_of_not_mem hn
  · intro n
    rw [reached_eq, Environment.contains_iff, Environment.mem_names_bindAll]
  · rw [reached_eq, Environment.size_eq_card (Environment.nodup_names_bindAll hdistinct)]
    congr 1
    ext n
    simp [Environment.mem_names_bindAll]
  · rintro before op after e rfl hop he
    exact runRemembering_erase hop he
  · intro ps
    rw [reached_eq, boundBy_set]
    rfl

/-- A variable is bound over in its place, one assignment has three targets and fails, another one
has a name twice, and a new variable is set again. -/
theorem run_keeps_history_of_assignments :
    (Environment.ofPairs [("a", .text "1"), ("b", .bool true)]).names.Nodup ∧
    (reached (.forgetful (Host.scripted [("id -un", .outcome ⟨0, "kim"⟩)])) ()
      (.ofPairs [("a", .text "1"), ("b", .bool true)])
      [.assign "$new, $a" (.text "$(id -un)"), .assign "$a, $b, $c" (.text "$b"),
        .assign "$z, $z" (.text "not $b"), .set "new" (.bool false)]).get? "z"
      = some (.bool true) ∧
    (reached (.forgetful (Host.scripted [("id -un", .outcome ⟨0, "kim"⟩)])) ()
      (.ofPairs [("a", .text "1"), ("b", .bool true)])
      [.assign "$new, $a" (.text "$(id -un)"), .assign "$a, $b, $c" (.text "$b"),
        .assign "$z, $z" (.text "not $b"), .set "new" (.bool false)]).size = 4 := by
  have hdistinct : (Environment.ofPairs [("a", .text "1"), ("b", .bool true)]).names.Nodup := by
    decide
  refine ⟨hdistinct, ?_, ?_⟩
  · exact (run_keeps_history _ () _ hdistinct _).2.2.2.1 "z" (.bool true)
      [("new", .bool true), ("a", .text "kim"), ("z", .bool false)] [("new", .bool false)] rfl
      (by decide)
  · rw [(run_keeps_history _ () _ hdistinct _).2.2.2.2.2.2.1]
    rfl

end CueScript
