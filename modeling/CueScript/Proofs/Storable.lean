import CueScript.Proofs.Bindings
import CueScript.Proofs.Readings
import CueScript.Proofs.Value.Sorted
import CueScript.Session

/-!
# CueScript.Proofs.Storable — environments that a file of variables can hold

A file of variables is an object, so the values in it lie inside one container more than they do on
their own.

1. **Invariant**: the names of a storable environment are distinct, and so are all keys inside its
   values, which nest less than the greatest depth of a document.
2. **Steps**: an expression has a storable value in a storable environment, so an assignment leaves
   the environment storable.
3. **Runs**: so does a session whose own values are storable.
4. **Files**: what a file holds is storable, and a storable environment is read back from its
   printed document, with names and keys in order.
-/

namespace CueScript

/-! ## Invariant -/

/-- A value that may stand behind a name in a file. -/
structure Value.Storable (v : Value) : Prop where
  distinctKeys : v.DistinctKeys
  depth_lt : v.depth < Value.maxDepth

/-- An environment that may stand in a file. -/
structure Environment.Storable (env : Environment) : Prop where
  distinctNames : env.names.Nodup
  values : ∀ e ∈ env.bindings, e.2.Storable

theorem Value.storable_text (s : String) : (Value.text s).Storable :=
  ⟨trivial, Nat.succ_pos 126⟩

theorem Value.storable_bool (b : Bool) : (Value.bool b).Storable :=
  ⟨trivial, Nat.succ_pos 126⟩

namespace Environment

/-- An environment is storable when its mapping is a value that a document can hold. -/
theorem storable_iff {env : Environment} :
    env.Storable ↔ (Value.mapping env.bindings).DistinctKeys ∧
      (Value.mapping env.bindings).depth ≤ Value.maxDepth := by
  have hdepth : (Value.mapping env.bindings).depth ≤ Value.maxDepth ↔
      ∀ e ∈ env.bindings, e.2.depth < Value.maxDepth := by
    have hmax : Value.maxDepth = 126 + 1 := rfl
    rw [Value.depth, hmax, Nat.add_le_add_iff_right, Value.depthEntries_le_iff]
    simp only [Nat.lt_succ_iff]
  rw [hdepth, Value.DistinctKeys, Value.distinctKeysEntries_iff]
  constructor
  · intro h
    exact ⟨⟨h.distinctNames, fun e he => (h.values e he).distinctKeys⟩,
      fun e he => (h.values e he).depth_lt⟩
  · rintro ⟨⟨hnames, hkeys⟩, hlt⟩
    exact ⟨hnames, fun e he => ⟨hkeys e he, hlt e he⟩⟩

theorem storable_empty : empty.Storable :=
  ⟨List.nodup_nil, by simp [empty]⟩

variable {env : Environment} {name : String} {v : Value}

theorem Storable.get? (h : env.Storable) (hget : env.get? name = some v) : v.Storable :=
  h.values (name, v) (Bindings.mem_of_find? hget)

theorem Storable.set (h : env.Storable) (hv : v.Storable) : (env.set name v).Storable where
  distinctNames := Bindings.nodup_keys_insert name v h.distinctNames
  values e he := by
    rcases Bindings.mem_of_mem_insert he with rfl | he
    · exact hv
    · exact h.values e he

end Environment

/-! ## Steps -/

section Steps

variable {env : Environment} (h : env.Storable)

include h

/-- An expression has a storable value, and so has a literal that is storable itself. -/
theorem storable_evaluate (host : Host) {rhs : Value} (hrhs : rhs.Storable) {r : Evaluation}
    (hr : (evaluate host env rhs).result = .ok r) : r.value.Storable := by
  rcases value_of_evaluate hr with ⟨s, hs⟩ | ⟨name, hname⟩ | hliteral
  · rw [hs]
    exact Value.storable_text s
  · exact h.get? hname
  · rw [hliteral]
    exact hrhs

theorem Targets.storable_bind (targets : Targets) {r : Evaluation} (hr : r.value.Storable) :
    (targets.bind r env).Storable := by
  cases targets with
  | value name => exact h.set hr
  | logicalAndValue ok name => exact (h.set (Value.storable_bool r.logical)).set hr

/-- An assignment leaves the environment storable, whether it succeeds or not. -/
theorem storable_assign (host : Host) (lhs : String) {rhs : Value} (hrhs : rhs.Storable) :
    (assign host env lhs rhs).result.1.Storable := by
  rw [assign]
  cases Targets.parse lhs with
  | error e => exact h
  | ok targets =>
      rw [Traced.result_map]
      cases hr : (evaluate host env rhs).result with
      | error e => exact h
      | ok r => exact targets.storable_bind h (storable_evaluate h host hrhs hr)

/-! ## Runs -/

/-- The values that an operation brings along are storable. -/
def Operation.Storable : Operation → Prop
  | .assign _ rhs => rhs.Storable
  | .set _ value => value.Storable
  | .evaluate _ | .evaluateText _ | .evaluateParsed _ | .resolveLoop _
  | .resolveCondition _ _ => True

/-- An operation leaves the environment storable. -/
theorem Operation.storable_run (host : Host) {op : Operation} (hop : op.Storable) :
    (op.run host env).result.1.Storable := by
  cases op with
  | assign lhs rhs => exact storable_assign h host lhs hop
  | set name value => exact h.set hop
  | evaluate value => exact h
  | evaluateText text => exact h
  | evaluateParsed e => exact h
  | resolveLoop header => exact h
  | resolveCondition ifSection next => exact h

omit h in
/-- A session leaves the environment storable, whatever the host answers. -/
theorem storable_runSession (h : env.Storable) (host : Host) {ops : List Operation}
    (hops : ∀ op ∈ ops, op.Storable) : (runSession host env ops).result.1.Storable := by
  induction ops generalizing env with
  | nil => exact h
  | cons op ops ih =>
      apply ih (Operation.storable_run h host (hops op (by simp)))
      intro op' hop'
      exact hops op' (by simp [hop'])

end Steps

/-! ## Files -/

namespace Environment

variable {env : Environment}

/-- What a file holds is storable. -/
theorem storable_of_ofJson? {text : String} (h : ofJson? text = some env) : env.Storable := by
  rw [ofJson?, Option.map_eq_some_iff] at h
  obtain ⟨entries, hread, rfl⟩ := h
  rw [Value.entriesOfJson?] at hread
  split at hread
  · next entries' hvalue =>
    obtain rfl := Option.some.inj hread
    exact storable_iff.2 (Value.invariants_of_ofJson? hvalue)
  · simp at hread

/-- The environment with names and keys in order. -/
def sorted (env : Environment) : Environment :=
  ⟨Value.sortedEntries env.bindings⟩

/-- The printed document of a storable environment is read back, with names and keys in order. -/
theorem ofJson?_prettySorted (h : env.Storable) :
    ofJson? (env.toNode.prettySorted ++ "\n") = some env.sorted := by
  obtain ⟨hkeys, hdepth⟩ := storable_iff.1 h
  have hread : Value.ofJson? (env.toNode.prettySorted ++ "\n")
      = some (.mapping env.sorted.bindings) :=
    Value.ofJson?_prettySorted hkeys hdepth
  rw [ofJson?, Value.entriesOfJson?, hread]
  rfl

theorem same_sorted (h : env.Storable) : env.sorted.same env = true :=
  Value.same_sorted (storable_iff.1 h).1

theorem get?_sorted (h : env.Storable) (name : String) :
    env.sorted.get? name = (env.get? name).map Value.sorted :=
  Value.find?_sortedEntries h.distinctNames name

end Environment

end CueScript
