import CueScript.Host.Scripted
import CueScript.Proofs.History
import CueScript.Proofs.Value.Canonical

/-!
# CueScript.Proofs.Independence — assignments that do not meet can be exchanged

1. **Hosts**: `IgnoresVariables` says that what a command comes to does not depend on the variables.
2. **Assignments**: `Independent` assignments share no target, and neither reads a target of the
   other one.
3. **Steps**: an assignment answers and binds behind an independent one as it does without it.
4. **Runs**: so pairwise independent assignments answer, call and bind as each of them does alone.
5. **Exchange**: two of them leave the same environment in either order, apart from the order of new
   names.
-/

namespace CueScript

/-! ## Hosts -/

/-- What a command comes to does not depend on the variables. -/
def Host.IgnoresVariables (host : Host) : Prop :=
  ∀ line env env', observe (host .unchecked line env) = observe (host .unchecked line env')

/-- Prepared replies do not depend on the variables as long as none of them shows a variable. -/
theorem Host.ignoresVariables_scripted {replies : List (String × Reply)}
    (h : ∀ p ∈ replies, ∀ name, p.2 ≠ .display name) : (scripted replies).IgnoresVariables := by
  intro line env env'
  rw [scripted, scripted]
  cases hfind : Bindings.find? line replies with
  | none => rfl
  | some reply =>
      have hreply := h (line, reply) (Bindings.mem_of_find? hfind)
      cases reply with
      | outcome o => rfl
      | fault f => rfl
      | display name => exact absurd rfl (hreply name)

/-- The variable that a value asks about when it is evaluated. -/
def Value.reads? (value : Value) : Option String :=
  (parsed? value.text?).bind fun e => e.form.reads?

section Hosts

variable {host : Host} {env env' : Environment} (hhost : host.IgnoresVariables)

include hhost

/-- With such a host a form depends on the variable that it asks about, if there is one. -/
theorem Form.evaluate_of_ignores {f : Form}
    (h : ∀ name, f.reads? = some name → env.get? name = env'.get? name) :
    f.evaluate host env = f.evaluate host env' := by
  cases hreads : f.reads? with
  | some name => exact Form.evaluate_of_reads hreads (h name hreads)
  | none =>
      cases f with
      | command line => simp only [evaluate, hhost line env env']
      | lookup name => exact absurd hreads (by simp [reads?])
      | defined name => exact absurd hreads (by simp [reads?])

/-- A value that is evaluated does so too; a literal depends on nothing. -/
theorem evaluate_of_ignores {rhs : Value}
    (h : ∀ name, rhs.reads? = some name → env.get? name = env'.get? name) :
    evaluate host env rhs = evaluate host env' rhs := by
  cases rhs with
  | text s =>
      rw [evaluate, evaluate, evaluateText, evaluateText]
      cases hparse : Expression.parse s with
      | error e => rfl
      | ok e =>
          have hform : e.form.evaluate host env = e.form.evaluate host env' := by
            apply Form.evaluate_of_ignores hhost
            intro name hname
            apply h
            simpa [Value.reads?, Value.text?, parsed?, hparse, Except.toOption] using hname
          simp only [Expression.evaluate, hform]
  | bool b => rfl
  | list items => rfl
  | mapping entries => rfl

end Hosts

/-! ## Assignments -/

structure Assignment where
  lhs : String
  rhs : Value
deriving Repr, DecidableEq

namespace Assignment

def operation (a : Assignment) : Operation :=
  .assign a.lhs a.rhs

/-- The names that the assignment may bind; none when its left-hand side is refused. -/
def targets (a : Assignment) : List String :=
  ((Targets.parse a.lhs).toOption.map Targets.names).getD []

def answer (host : Host) (env : Environment) (a : Assignment) : Except SyntaxError Answer :=
  (a.operation.run host env).result.2

def bound (host : Host) (env : Environment) (a : Assignment) : List (String × Value) :=
  a.operation.bound host env

/-- The assignments share no target, and neither reads a target of the other one. -/
structure Independent (a b : Assignment) : Prop where
  disjoint : ∀ name ∈ a.targets, name ∉ b.targets
  left : ∀ name, a.rhs.reads? = some name → name ∉ b.targets
  right : ∀ name, b.rhs.reads? = some name → name ∉ a.targets

theorem Independent.symm {a b : Assignment} (h : a.Independent b) : b.Independent a where
  disjoint name hb ha := h.disjoint name ha hb
  left := h.right
  right := h.left

/-! ## Steps -/

section Steps

variable {host : Host} {env env' : Environment} {a b : Assignment}

/-- Nothing but targets is bound. -/
theorem keys_bound {name : String} (h : name ∈ Bindings.keys (a.bound host env)) :
    name ∈ a.targets := by
  rw [bound, operation, Operation.bound] at h
  split at h
  · next targets r ht _ =>
    rw [Targets.keys_pairs] at h
    simpa [Assignment.targets, ht, Except.toOption] using h
  · exact absurd h List.not_mem_nil

/-- All that counts is what the right-hand side comes to. -/
theorem run_congr (h : evaluate host env a.rhs = evaluate host env' a.rhs) :
    a.answer host env = a.answer host env' ∧ a.bound host env = a.bound host env' := by
  constructor
  · rw [answer, answer, operation, Operation.run, Operation.run, assign, assign]
    cases Targets.parse a.lhs with
    | error e => rfl
    | ok targets =>
        simp only [Traced.result_map, h]
        cases (evaluate host env' a.rhs).result with
        | error e => rfl
        | ok r => rfl
  · rw [bound, bound, operation, Operation.bound, Operation.bound, h]

/-- Behind an independent assignment the right-hand side comes to the same. -/
theorem Independent.run_eq (h : a.Independent b) (hhost : host.IgnoresVariables) :
    b.answer host (env.bindAll (a.bound host env)) = b.answer host env ∧
      b.bound host (env.bindAll (a.bound host env)) = b.bound host env := by
  apply run_congr
  apply evaluate_of_ignores hhost
  intro name hname
  apply Environment.get?_bindAll_of_not_mem
  exact fun hmem => h.right name hname (keys_bound hmem)

/-- Distinct keys stay distinct. -/
theorem distinctKeys_bound (henv : env.DistinctKeys) (ha : a.rhs.DistinctKeys) :
    ∀ p ∈ a.bound host env, p.2.DistinctKeys := by
  rw [bound, operation, Operation.bound]
  split
  · next targets r _ hr =>
    have hvalue : r.value.DistinctKeys := by
      rcases value_of_evaluate hr with ⟨s, hs⟩ | ⟨name, hname⟩ | hliteral
      · rw [hs]
        trivial
      · exact henv.get? hname
      · rw [hliteral]
        exact ha
    cases targets with
    | value name => simpa [Targets.pairs] using hvalue
    | logicalAndValue ok name => simpa [Targets.pairs, Value.DistinctKeys] using hvalue
  · intro p hp
    exact absurd hp List.not_mem_nil

end Steps

/-! ## Runs -/

/-- Pairwise independent assignments are answered, call the host and bind as each of them does
alone. -/
theorem runSession_of_independent {host : Host} (hhost : host.IgnoresVariables)
    {as : List Assignment} (h : as.Pairwise Independent) (env : Environment) :
    runSession host env (as.map operation)
      = ⟨(env.bindAll (as.flatMap (bound host env)), as.map (answer host env)),
          as.flatMap fun a => a.operation.calls⟩ := by
  -- the rest runs in what the first assignment leaves, where it comes to the same
  induction as generalizing env with
  | nil => rfl
  | cons a as ih =>
      obtain ⟨hfirst, hrest⟩ := List.pairwise_cons.1 h
      have henv : (a.operation.run host env).result.1 = env.bindAll (a.bound host env) :=
        a.operation.env_run host env
      have hanswers : as.map (answer host (env.bindAll (a.bound host env)))
          = as.map (answer host env) :=
        List.map_congr_left fun b hb => ((hfirst b hb).run_eq hhost).1
      have hbound : as.flatMap (bound host (env.bindAll (a.bound host env)))
          = as.flatMap (bound host env) := by
        rw [List.flatMap_def, List.flatMap_def]
        congr 1
        exact List.map_congr_left fun b hb => ((hfirst b hb).run_eq hhost).2
      rw [List.map_cons, runSession, henv, ih hrest, hanswers, hbound, Operation.calls_run,
        List.flatMap_cons, List.flatMap_cons, List.map_cons, Environment.bindAll_append]
      rfl

end Assignment

/-! ## Exchange -/

open Assignment in
/-- Two independent assignments can be exchanged, on a host whose commands come to the same whatever
the variables hold. Each of them is answered in either order as it would be alone, with a success or
with the same error, and the same calls are made, up to their order. All names end with the same
values, so the environments are the same; when all targets are bound before, not even the order of
the names tells which assignment came first. -/
theorem independent_assignments_commute {host : Host} {env : Environment} {a b : Assignment}
    (hhost : host.IgnoresVariables) (henv : env.DistinctKeys) (hind : a.Independent b)
    (ha : a.rhs.DistinctKeys) (hb : b.rhs.DistinctKeys) :
    ∃ forth back calls calls',
      runSession host env [a.operation, b.operation]
        = ⟨(forth, [a.answer host env, b.answer host env]), calls⟩ ∧
      runSession host env [b.operation, a.operation]
        = ⟨(back, [b.answer host env, a.answer host env]), calls'⟩ ∧
      calls.Perm calls' ∧ forth.same back = true ∧
      (∀ name, forth.get? name = back.get? name) ∧
      ((∀ name, name ∈ a.targets ∨ name ∈ b.targets → name ∈ env.names) → forth = back) := by
  have hab : [a, b].Pairwise Independent := List.pairwise_pair.2 hind
  have hba : [b, a].Pairwise Independent := List.pairwise_pair.2 hind.symm
  have hforth := runSession_of_independent hhost hab env
  have hback := runSession_of_independent hhost hba env
  simp only [List.map_cons, List.map_nil, List.flatMap_cons, List.flatMap_nil, List.append_nil]
    at hforth hback
  have hdisjoint : ∀ name ∈ Bindings.keys (a.bound host env),
      name ∉ Bindings.keys (b.bound host env) :=
    fun name hname hname' => hind.disjoint name (keys_bound hname) (keys_bound hname')
  have hget : ∀ name, (env.bindAll (a.bound host env ++ b.bound host env)).get? name
      = (env.bindAll (b.bound host env ++ a.bound host env)).get? name :=
    Bindings.find?_insertAll_swap hdisjoint env.bindings
  have hkeys : ∀ p, p ∈ a.bound host env ∨ p ∈ b.bound host env → p.2.DistinctKeys := by
    rintro p (hp | hp)
    · exact distinctKeys_bound henv ha p hp
    · exact distinctKeys_bound henv hb p hp
  refine ⟨_, _, _, _, hforth, hback, List.perm_append_comm, ?_, hget, ?_⟩
  · apply Environment.same_of_get?_eq _ _ hget
    · exact henv.insertAll fun p hp => hkeys p (List.mem_append.1 hp)
    · exact henv.insertAll fun p hp => hkeys p (List.mem_append.1 hp).symm
  · intro hbound
    have hswap := Bindings.insertAll_swap henv.1 hdisjoint
      (fun name hname => hbound name (.inl (keys_bound hname)))
      (fun name hname => hbound name (.inr (keys_bound hname)))
    rw [Environment.bindAll, Environment.bindAll, hswap]

open Assignment in
/-- One assignment has a name twice and runs a command that fails; the other one copies a mapping
that is bound to a name of its own. -/
theorem independent_assignments_commute_of_failing_command :
    (Host.scripted [("ls", .fault (.nonZeroExit 2 "no"))]).IgnoresVariables ∧
    (Environment.ofPairs [("a", .text "1"), ("b", .bool true),
      ("m", .mapping [("k", .list [])])]).DistinctKeys ∧
    Independent ⟨"$a, $a", .text "not $(ls)"⟩ ⟨"$\x7bb\x7d", .text "defined $m"⟩ ∧
    (runSession (Host.scripted [("ls", .fault (.nonZeroExit 2 "no"))])
        (.ofPairs [("a", .text "1"), ("b", .bool true), ("m", .mapping [("k", .list [])])])
        [.assign "$a, $a" (.text "not $(ls)"),
          .assign "$\x7bb\x7d" (.text "defined $m")]).result.1
      = (runSession (Host.scripted [("ls", .fault (.nonZeroExit 2 "no"))])
        (.ofPairs [("a", .text "1"), ("b", .bool true), ("m", .mapping [("k", .list [])])])
        [.assign "$\x7bb\x7d" (.text "defined $m"),
          .assign "$a, $a" (.text "not $(ls)")]).result.1 := by
  have hhost : (Host.scripted [("ls", .fault (.nonZeroExit 2 "no"))]).IgnoresVariables := by
    apply Host.ignoresVariables_scripted
    simp
  have henv : (Environment.ofPairs [("a", .text "1"), ("b", .bool true),
      ("m", .mapping [("k", .list [])])]).DistinctKeys := by
    apply Environment.distinctKeys_ofPairs
    simp [Value.DistinctKeys, Value.DistinctKeysEntries, Value.DistinctKeysItems, Bindings.keys]
  have htargets : targets ⟨"$a, $a", .text "not $(ls)"⟩ = ["a", "a"] := by decide
  have htargets' : targets ⟨"$\x7bb\x7d", .text "defined $m"⟩ = ["b"] := by decide
  have hind : Independent ⟨"$a, $a", .text "not $(ls)"⟩ ⟨"$\x7bb\x7d", .text "defined $m"⟩ := by
    have hreads : Value.reads? (.text "not $(ls)") = none := by decide
    have hreads' : Value.reads? (.text "defined $m") = some "m" := by decide
    constructor
    · simp [htargets, htargets']
    · simp [hreads]
    · simp [hreads', htargets]
  refine ⟨hhost, henv, hind, ?_⟩
  obtain ⟨forth, back, calls, calls', hforth, hback, -, -, -, hsame⟩ :=
    independent_assignments_commute hhost henv hind trivial trivial
  have hbound : ∀ name, name ∈ ["a", "a"] ∨ name ∈ ["b"] → name ∈ (Environment.ofPairs
      [("a", .text "1"), ("b", .bool true), ("m", .mapping [("k", .list [])])]).names := by
    have hnames : (Environment.ofPairs [("a", .text "1"), ("b", .bool true),
        ("m", .mapping [("k", .list [])])]).names = ["a", "b", "m"] := by decide
    rw [hnames]
    simp
  rw [htargets, htargets'] at hsame
  rw [operation, operation] at hforth hback
  rw [hforth, hback]
  exact hsame hbound

end CueScript
