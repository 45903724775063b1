import CueScript.Cli.Evaluator
import CueScript.Proofs.Except
import CueScript.Proofs.Storable

/-!
# CueScript.Proofs.Cli.SavedEnvironment — what `assign` prints is a file of variables

1. **Loading**: an environment that is loaded from a file and pairs is storable.
2. **Saving**: a text saves an environment when it is its document with keys in order and every
   file with this text loads it. The printed document of a storable environment does.
3. **Runs**: an assignment keeps the environment storable, so what the command line prints for it
   can be loaded again.
-/

namespace CueScript.Cli

/-! ## Loading -/

/-- Pairs bind texts. -/
theorem storable_bindPairs {pairs : List String} {env env' : Environment} (h : env.Storable)
    (hbind : bindPairs env pairs = .ok env') : env'.Storable := by
  induction pairs generalizing env with
  | nil =>
      obtain rfl := Except.ok.inj hbind
      exact h
  | cons pair pairs ih =>
      rw [bindPairs] at hbind
      split at hbind
      · next name value _ => exact ih (h.set (Value.storable_text (String.ofList value))) hbind
      · simp at hbind

theorem storable_loadEnvironment {files : Files} {varsFile : Option String} {pairs : List String}
    {env : Environment} (hload : loadEnvironment files varsFile pairs = .ok env) :
    env.Storable := by
  cases varsFile with
  | none => exact storable_bindPairs Environment.storable_empty hload
  | some path =>
      rw [loadEnvironment] at hload
      split at hload
      · simp at hload
      · next text _ =>
        split at hload
        · next stored hread =>
          exact storable_bindPairs (Environment.storable_of_ofJson? hread) hload
        · simp at hload

theorem readText_of_text {files : Files} {path text : String}
    (hfile : files path = .ok (Text.Utf8.encode text.toList)) : readText files path = .ok text := by
  simp only [readText, hfile, bind, Except.bind, Text.Utf8.decode?_encode]
  rw [String.ofList_toList]
  rfl

/-- A file with the bytes of a text is loaded like the text. -/
theorem loadEnvironment_of_text {files : Files} {path text : String} {env : Environment}
    (hfile : files path = .ok (Text.Utf8.encode text.toList))
    (hread : Environment.ofJson? text = some env) :
    loadEnvironment files (some path) [] = .ok env := by
  simp only [loadEnvironment, readText_of_text hfile, hread]
  rfl

/-! ## Saving -/

/-- A text stands for an environment: it is the indented document of the same variables with the
keys of all objects in the order of their bytes, and any file with this text loads the environment,
up to the order of names and keys. Texts are loaded as texts, whatever they look like. -/
structure Saves (text : String) (env : Environment) : Prop where
  written : ∃ v : Value, v.KeysInOrder ∧ v.same (.mapping env.bindings) = true ∧
    text = String.ofList (v.toNode.write .pretty 0) ++ "\n"
  loaded : ∀ (files : Files) (path : String), files path = .ok (Text.Utf8.encode text.toList) →
    ∃ reloaded, loadEnvironment files (some path) [] = .ok reloaded ∧ reloaded.same env = true ∧
      ∀ name s, reloaded.get? name = some (.text s) ↔ env.get? name = some (.text s)

/-- Sorting makes no text of anything else. -/
theorem sorted_eq_text_iff {v : Value} {s : String} : v.sorted = .text s ↔ v = .text s := by
  cases v with
  | text t => exact Iff.rfl
  | bool b => exact Iff.rfl
  | list items => simp [Value.sorted]
  | mapping entries => simp [Value.sorted]

theorem saves_prettySorted {env : Environment} (h : env.Storable) :
    Saves (env.toNode.prettySorted ++ "\n") env where
  written := by
    have hkeys := (Environment.storable_iff.1 h).1
    refine ⟨(Value.mapping env.bindings).sorted, Value.keysInOrder_sorted hkeys, ?_, ?_⟩
    · exact Value.same_sorted hkeys
    · rw [Value.toNode_sorted]
      rfl
  loaded files path hfile := by
    refine ⟨env.sorted, ?_, Environment.same_sorted h, ?_⟩
    · exact loadEnvironment_of_text hfile (Environment.ofJson?_prettySorted h)
    · intro name s
      rw [Environment.get?_sorted h, Option.map_eq_some_iff]
      simp only [sorted_eq_text_iff, exists_eq_right]

/-! ## Runs -/

/-- A successful `assign` gives the document of the environment after the assignment. -/
theorem run_assign_eq_ok_iff {host : Host} {env : Environment} {targets expression : String}
    {node : Json.Node} :
    (Task.assign targets expression).run host env = .ok node ↔
      ∃ env', (assign host env targets (.text expression)).result = (env', .ok ()) ∧
        node = env'.toNode := by
  rw [Task.run]
  rcases (assign host env targets (.text expression)).result with ⟨env', r⟩
  cases r with
  | error e => simp [Except.map]
  | ok u => simp [Except.map, eq_comm]

/-- A task that succeeds runs in the environment that was loaded, on the host of the
configuration. -/
theorem exists_of_runTask {execute : Executor} {files : Files} {options : Options} {task : Task}
    {node : Json.Node} (h : runTask execute files options task = .ok node) :
    ∃ config env, loadConfig files options.configFile = .ok config ∧
      loadEnvironment files options.varsFile options.pairs = .ok env ∧
      task.run (Host.process execute config) env = .ok node := by
  rw [runTask, Except.bind_eq_ok_iff] at h
  obtain ⟨config, hconfig, h⟩ := h
  rw [Except.bind_eq_ok_iff] at h
  obtain ⟨env, henv, h⟩ := h
  refine ⟨config, env, hconfig, henv, ?_⟩
  split at h
  · next node' hrun =>
    obtain rfl := Except.ok.inj h
    exact hrun
  · simp at h

theorem exists_of_evaluator {execute : Executor} {files : Files} {args : List String}
    {options : Options} {task : Task} {stdout : String}
    (hargs : invocation? args = some (.run options task))
    (h : evaluator execute files args = .success stdout) :
    ∃ node, runTask execute files options task = .ok node ∧ stdout = node.prettySorted ++ "\n" := by
  simp only [evaluator, hargs] at h
  split at h
  · next node hrun => exact ⟨node, hrun, (Ending.success.inj h).symm⟩
  · simp at h

/-- From a loaded environment, an assignment that succeeds prints a text that saves the environment
after it. -/
theorem saves_of_run_assign {files : Files} {varsFile : Option String} {pairs : List String}
    {env : Environment} {host : Host} {targets expression : String} {node : Json.Node}
    (hload : loadEnvironment files varsFile pairs = .ok env)
    (hrun : (Task.assign targets expression).run host env = .ok node) :
    ∃ env', (assign host env targets (.text expression)).result = (env', .ok ()) ∧
      (Value.mapping env'.bindings).depth ≤ 127 ∧ Saves (node.prettySorted ++ "\n") env' := by
  obtain ⟨env', hassign, rfl⟩ := run_assign_eq_ok_iff.1 hrun
  -- loading gives a storable environment, and the assignment keeps it so
  have hafter : env'.Storable := by
    have h := storable_assign (storable_loadEnvironment hload) host targets
      (Value.storable_text expression)
    rw [hassign] at h
    exact h
  exact ⟨env', hassign, (Environment.storable_iff.1 hafter).2, saves_prettySorted hafter⟩

/-- What `assign` prints is a file of variables. For every host, and from every environment that is
loaded from a file or from nothing and from pairs, an assignment that succeeds prints a text that
saves the environment after it, and that environment nests at most as deep as a file may. The same
holds of the output of the whole program on every command line, and of all that is reached from a
loaded environment by operations that bring along no deeper values. -/
theorem assign_prints_saved_environment :
    (∀ (files : Files) (varsFile : Option String) (pairs : List String) (env : Environment)
      (host : Host) (targets expression : String) (node : Json.Node),
      loadEnvironment files varsFile pairs = .ok env →
      (Task.assign targets expression).run host env = .ok node →
      ∃ env', (assign host env targets (.text expression)).result = (env', .ok ()) ∧
        (Value.mapping env'.bindings).depth ≤ 127 ∧ Saves (node.prettySorted ++ "\n") env') ∧
    (∀ (execute : Executor) (files : Files) (args : List String) (options : Options)
      (targets expression stdout : String),
      invocation? args = some (.run options (.assign targets expression)) →
      evaluator execute files args = .success stdout →
      ∃ config env env', loadConfig files options.configFile = .ok config ∧
        loadEnvironment files options.varsFile options.pairs = .ok env ∧
        (assign (Host.process execute config) env targets (.text expression)).result
          = (env', .ok ()) ∧
        (Value.mapping env'.bindings).depth ≤ 127 ∧ Saves stdout env') ∧
    (∀ (files : Files) (varsFile : Option String) (pairs : List String) (env env' : Environment)
      (host : Host) (ops : List Operation),
      loadEnvironment files varsFile pairs = .ok env → (∀ op ∈ ops, op.Storable) →
      (runSession host env ops).result.1 = env' →
      (Value.mapping env'.bindings).depth ≤ 127 ∧
        Saves (env'.toNode.prettySorted ++ "\n") env') := by
  refine ⟨?_, ?_, ?_⟩
  · intro files varsFile pairs env host targets expression node hload hrun
    exact saves_of_run_assign hload hrun
  · intro execute files args options targets expression stdout hargs hsuccess
    obtain ⟨node, htask, rfl⟩ := exists_of_evaluator hargs hsuccess
    obtain ⟨config, env, hconfig, hload, hrun⟩ := exists_of_runTask htask
    obtain ⟨env', hassign, hdepth, hsaves⟩ := saves_of_run_assign hload hrun
    exact ⟨config, env, env', hconfig, hload, hassign, hdepth, hsaves⟩
  · rintro files varsFile pairs env env' host ops hload hops rfl
    have hafter := storable_runSession (storable_loadEnvironment hload) host hops
    exact ⟨(Environment.storable_iff.1 hafter).2, saves_prettySorted hafter⟩

/-- A text that looks like a number is copied to a second name and saved as a text. -/
theorem assign_prints_saved_environment_of_number :
    ∃ node : Json.Node,
      (∃ env', (assign (fun _ _ _ => .ok ⟨0, ""⟩) ⟨[("n", .text "12")]⟩ "$ok, $x"
          (.text "$n")).result = (env', .ok ()) ∧ env'.get? "x" = some (.text "12") ∧
        Saves (node.prettySorted ++ "\n") env') ∧
      evaluator (fun _ => .error "") (fun _ => .error "")
          ["--var", "n=12", "assign", "$ok, $x", "$n"] = .success (node.prettySorted ++ "\n") ∧
      ∃ env', Saves (node.prettySorted ++ "\n") env' := by
  have hload : loadEnvironment (fun _ => .error "") none ["n=12"]
      = .ok ⟨[("n", .text "12")]⟩ := by
    decide
  have hassign : ∀ host : Host, (assign host ⟨[("n", .text "12")]⟩ "$ok, $x" (.text "$n")).result
      = (⟨[("n", .text "12"), ("ok", .bool true), ("x", .text "12")]⟩, .ok ()) := by
    intro host
    rfl
  have hargs : invocation? ["--var", "n=12", "assign", "$ok, $x", "$n"]
      = some (.run ⟨["n=12"], none, none, 0⟩ (.assign "$ok, $x" "$n")) := by
    decide
  have hsuccess : evaluator (fun _ => .error "") (fun _ => .error "")
      ["--var", "n=12", "assign", "$ok, $x", "$n"]
      = .success ((Environment.toNode
        ⟨[("n", .text "12"), ("ok", .bool true), ("x", .text "12")]⟩).prettySorted ++ "\n") := by
    simp only [evaluator, hargs]
    rfl
  refine ⟨_, ?_, hsuccess, ?_⟩
  · obtain ⟨env', hresult, -, hsaves⟩ := assign_prints_saved_environment.1 _ _ _ _
      (fun _ _ _ => .ok ⟨0, ""⟩) _ _ _ hload (run_assign_eq_ok_iff.2 ⟨_, hassign _, rfl⟩)
    rw [hassign] at hresult
    obtain ⟨rfl, -⟩ := Prod.mk.inj hresult
    exact ⟨_, hassign _, by decide, hsaves⟩
  · obtain ⟨_, _, env', _, _, _, _, hsaves⟩ :=
      assign_prints_saved_environment.2.1 _ _ _ _ _ _ _ hargs hsuccess
    exact ⟨env', hsaves⟩

end CueScript.Cli
