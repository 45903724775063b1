import CueScript.Host.Process
import CueScript.Proofs.Bindings

/-!
# CueScript.Proofs.Host.Launch — what of an environment reaches a command

1. **Names**: `ExportableName` is the grammar of names that processes can take.
2. **Exports**: a variable is exported when it has such a name and is a text or a truth value. The
   list of exports holds each name once and does not depend on the order of the environment.
3. **Launches**: two environments lead to the same program, arguments and variables exactly when
   they export the same.
-/

namespace CueScript

/-! ## Names -/

/-- A letter of ASCII. -/
def IsLetter (c : Char) : Prop :=
  'A' ≤ c ∧ c ≤ 'Z' ∨ 'a' ≤ c ∧ c ≤ 'z'

/-- A digit of ASCII. -/
def IsDigit (c : Char) : Prop :=
  '0' ≤ c ∧ c ≤ '9'

/-- The names `[A-Za-z_][A-Za-z0-9_]*`. -/
inductive ExportableName : List Char → Prop where
  | mk {c : Char} {cs : List Char} (first : IsLetter c ∨ c = '_')
      (rest : ∀ d ∈ cs, IsLetter d ∨ IsDigit d ∨ d = '_') : ExportableName (c :: cs)

theorem isAlpha_iff {c : Char} : c.isAlpha = true ↔ IsLetter c := by
  have hupper : c.isUpper = true ↔ 'A' ≤ c ∧ c ≤ 'Z' := decide_eq_true_iff
  have hlower : c.isLower = true ↔ 'a' ≤ c ∧ c ≤ 'z' := by
    show (decide ('a' ≤ c) && decide (c ≤ 'z')) = true ↔ _
    rw [Bool.and_eq_true, decide_eq_true_iff, decide_eq_true_iff]
  show (c.isUpper || c.isLower) = true ↔ _
  rw [Bool.or_eq_true, hupper, hlower]
  rfl

theorem isAlphanum_iff {c : Char} : c.isAlphanum = true ↔ IsLetter c ∨ IsDigit c := by
  have hdigit : c.isDigit = true ↔ IsDigit c := by
    simp [Char.isDigit, IsDigit, Char.le_def]
  rw [Char.isAlphanum, Bool.or_eq_true, isAlpha_iff, hdigit]

theorem isExportableName_iff {name : String} :
    isExportableName name = true ↔ ExportableName name.toList := by
  unfold isExportableName
  cases name.toList with
  | nil =>
      constructor
      · intro h
        exact absurd h (by decide)
      · intro h
        cases h
  | cons c cs =>
      simp only [Bool.and_eq_true, Bool.or_eq_true, beq_iff_eq, List.all_eq_true, isAlpha_iff,
        isAlphanum_iff, or_assoc]
      constructor
      · rintro ⟨hfirst, hrest⟩
        exact .mk hfirst hrest
      · rintro ⟨hfirst, hrest⟩
        exact ⟨hfirst, hrest⟩

/-! ## Exports -/

/-- How a text or a truth value is written for a process. Structures are not. -/
inductive Value.ExportsAs : Value → String → Prop where
  | text (s : String) : ExportsAs (.text s) s
  | bool (b : Bool) : ExportsAs (.bool b) (if b then "true" else "false")

/-- A variable of the environment that processes can take, and how it is written for them. -/
def Environment.Exports (env : Environment) (name text : String) : Prop :=
  ExportableName name.toList ∧ ∃ v, env.get? name = some v ∧ v.ExportsAs text

theorem Value.exported?_eq_some_iff {v : Value} {text : String} :
    v.exported? = some text ↔ v.ExportsAs text := by
  constructor
  · intro h
    cases v with
    | text s =>
        obtain rfl := Option.some.inj h
        exact .text s
    | bool b =>
        cases b with
        | true =>
            obtain rfl := Option.some.inj h
            exact .bool true
        | false =>
            obtain rfl := Option.some.inj h
            exact .bool false
    | list items => simp [exported?] at h
    | mapping entries => simp [exported?] at h
  · intro h
    cases h with
    | text => rfl
    | bool b =>
        cases b with
        | true => rfl
        | false => rfl

def exportOf? (v : String × Value) : Option (String × String) :=
  if isExportableName v.1 then (v.2.exported?).map fun s => (v.1, s) else none

/-- A variable is exported under its own name. -/
theorem exportOf?_eq_some_iff {v : String × Value} {p : String × String} :
    exportOf? v = some p ↔ v.1 = p.1 ∧ ExportableName p.1.toList ∧ v.2.ExportsAs p.2 := by
  rcases p with ⟨name, text⟩
  unfold exportOf?
  split
  · next hname =>
    rw [Option.map_eq_some_iff]
    constructor
    · rintro ⟨s, hs, heq⟩
      obtain ⟨rfl, rfl⟩ := Prod.mk.inj heq
      exact ⟨rfl, isExportableName_iff.1 hname, Value.exported?_eq_some_iff.1 hs⟩
    · rintro ⟨rfl, -, hv⟩
      exact ⟨text, Value.exported?_eq_some_iff.2 hv, rfl⟩
  · next hname =>
    constructor
    · intro h
      simp at h
    · rintro ⟨rfl, hname', -⟩
      exact absurd (isExportableName_iff.2 hname') hname

namespace Environment

variable {env env' : Environment} {name text : String}

theorem exports_eq (env : Environment) :
    env.exports = (env.toList.filterMap exportOf?).mergeSort fun a b => a.1 ≤ b.1 := rfl

/-- Only what is exported is in the list, in whatever order the environment is. -/
theorem mem_exports_iff (h : env.names.Nodup) :
    (name, text) ∈ env.exports ↔ env.Exports name text := by
  rw [exports_eq, (List.mergeSort_perm _ _).mem_iff, List.mem_filterMap]
  constructor
  · rintro ⟨⟨n, v⟩, hmem, hv⟩
    obtain ⟨rfl, hname, htext⟩ := exportOf?_eq_some_iff.1 hv
    exact ⟨hname, v, Bindings.find?_of_mem h hmem, htext⟩
  · rintro ⟨hname, v, hget, htext⟩
    exact ⟨(name, v), Bindings.mem_of_find? hget, exportOf?_eq_some_iff.2 ⟨rfl, hname, htext⟩⟩

/-- No name is exported twice. -/
theorem nodup_keys_exports (h : env.names.Nodup) : (Bindings.keys env.exports).Nodup := by
  have hperm := (List.mergeSort_perm (env.toList.filterMap exportOf?) fun a b => a.1 ≤ b.1).map
    Prod.fst
  have hnames : env.toList.Pairwise fun v w => v.1 ≠ w.1 := List.pairwise_map.1 h
  rw [exports_eq, Bindings.keys, hperm.nodup_iff, List.nodup_iff_pairwise_ne, List.pairwise_map]
  refine hnames.filterMap exportOf? ?_
  intro v w hne p hp q hq
  rwa [← (exportOf?_eq_some_iff.1 hp).1, ← (exportOf?_eq_some_iff.1 hq).1]

/-- The list of exports is in the order of the names. -/
theorem exports_pairwise (env : Environment) :
    env.exports.Pairwise fun a b => a.1 ≤ b.1 := by
  have htrans : ∀ a b c : String × String, decide (a.1 ≤ b.1) = true → decide (b.1 ≤ c.1) = true →
      decide (a.1 ≤ c.1) = true := by
    intro a b c hab hbc
    simp only [decide_eq_true_eq] at hab hbc ⊢
    exact String.le_trans hab hbc
  have htotal : ∀ a b : String × String, (decide (a.1 ≤ b.1) || decide (b.1 ≤ a.1)) = true := by
    intro a b
    simpa using String.le_total a.1 b.1
  have hsorted := List.pairwise_mergeSort htrans htotal (env.toList.filterMap exportOf?)
  rw [exports_eq]
  exact hsorted.imp fun hab => by simpa using hab

/-- Environments that export the same have the same list of exports. -/
theorem exports_eq_iff (h : env.names.Nodup) (h' : env'.names.Nodup) :
    env.exports = env'.exports ↔ ∀ name text, env.Exports name text ↔ env'.Exports name text := by
  constructor
  · intro heq name text
    rw [← mem_exports_iff h, ← mem_exports_iff h', heq]
  · intro hsame
    have hkeys := nodup_keys_exports h
    have hmem : ∀ p, p ∈ env.exports ↔ p ∈ env'.exports := by
      rintro ⟨name, text⟩
      rw [mem_exports_iff h, mem_exports_iff h', hsame]
    have hperm : env.exports.Perm env'.exports := by
      rw [List.perm_ext_iff_of_nodup (Bindings.nodup_of_nodup_keys hkeys)
        (Bindings.nodup_of_nodup_keys (nodup_keys_exports h'))]
      exact hmem
    -- both lists are in order, and no two entries have one name
    refine List.Perm.eq_of_pairwise ?_ (exports_pairwise env) (exports_pairwise env') hperm
    rintro ⟨n, s⟩ ⟨m, t⟩ hs ht hnm hmn
    obtain rfl : n = m := String.le_antisymm hnm hmn
    have hfound := Bindings.find?_of_mem hkeys ((hmem _).2 ht)
    rw [Bindings.find?_of_mem hkeys hs] at hfound
    rw [Option.some.inj hfound]

end Environment

/-! ## Launches -/

section Launches

variable {config : Config} {line : String} {env env' : Environment}

/-- Nothing but the exports of an environment is looked at, and those only when they are asked
for. -/
theorem launch_eq_iff (h : env.names.Nodup) (h' : env'.names.Nodup) :
    config.launch line env = config.launch line env' ↔ (config.exportVariables = true →
      ∀ name text, env.Exports name text ↔ env'.Exports name text) := by
  rw [← Environment.exports_eq_iff h h']
  simp only [Config.launch, Launch.mk.injEq, true_and]
  cases config.exportVariables with
  | true => simp
  | false => simp

theorem mem_overlay_iff (h : env.names.Nodup) {name text : String} :
    (name, text) ∈ (config.launch line env).overlay ↔
      config.exportVariables = true ∧ env.Exports name text := by
  rw [← Environment.mem_exports_iff h, Config.launch]
  cases config.exportVariables with
  | true => simp
  | false => simp

theorem nodup_keys_overlay (h : env.names.Nodup) :
    (Bindings.keys (config.launch line env).overlay).Nodup := by
  rw [Config.launch]
  cases config.exportVariables with
  | true => exact Environment.nodup_keys_exports h
  | false => exact List.nodup_nil

/-- Only texts and truth values are exported. -/
theorem Value.ExportsAs.plain {v : Value} {text : String} (h : v.ExportsAs text) :
    (∃ s, v = .text s) ∨ ∃ b, v = .bool b := by
  cases h with
  | text => exact .inl ⟨text, rfl⟩
  | bool b => exact .inr ⟨b, rfl⟩

/-- Environments with the same texts and truth values under exportable names export the same. -/
theorem Environment.exports_of_agree
    (h : ∀ name v, ExportableName name.toList → ((∃ s, v = .text s) ∨ ∃ b, v = .bool b) →
      (env.get? name = some v ↔ env'.get? name = some v)) (name text : String) :
    env.Exports name text ↔ env'.Exports name text := by
  constructor
  · rintro ⟨hname, v, hget, htext⟩
    exact ⟨hname, v, (h name v hname htext.plain).1 hget, htext⟩
  · rintro ⟨hname, v, hget, htext⟩
    exact ⟨hname, v, (h name v hname htext.plain).2 hget, htext⟩

theorem process_of_launch_eq (h : config.launch line env = config.launch line env')
    (execute : Executor) (mode : CommandMode) :
    Host.process execute config mode line env = Host.process execute config mode line env' := by
  simp only [Host.process, h]

end Launches

/-- What is started for a command line, and what of an environment reaches it. The program is the
shell of the configuration. It gets the arguments of the configuration and one more, the script that
joins the error stream to the output and goes on with the command line. A variable is added to what
the process inherits exactly when exporting is on, the name is exportable and the value is a text or
a truth value; no name is added twice. Two environments lead to the same launch exactly when they
export the same, or exporting is off: the order of the variables, all structures and all other names
play no part. So environments that bind exportable names to the same texts and truth values get the
same answers from every process, and without exporting all environments do. -/
theorem launch_exact (config : Config) (line : String) (env : Environment)
    (hdistinct : env.names.Nodup) :
    (config.launch line env).program = config.shell ∧
    (config.launch line env).args = config.shellArgs ++ ["exec 2>&1\n" ++ line] ∧
    (config.launch line env).cwd = config.cwd ∧
    (∀ name text, (name, text) ∈ (config.launch line env).overlay ↔
      config.exportVariables = true ∧ ExportableName name.toList ∧
        ((env.get? name = some (.text text)) ∨
          ∃ b, env.get? name = some (.bool b) ∧ text = if b then "true" else "false")) ∧
    (Bindings.keys (config.launch line env).overlay).Nodup ∧
    (∀ env' : Environment, env'.names.Nodup →
      (config.launch line env = config.launch line env' ↔ (config.exportVariables = true →
        ∀ name text, env.Exports name text ↔ env'.Exports name text))) ∧
    (∀ env' : Environment, env'.names.Nodup →
      (∀ name v, ExportableName name.toList → ((∃ s, v = .text s) ∨ ∃ b, v = .bool b) →
        (env.get? name = some v ↔ env'.get? name = some v)) →
      config.launch line env = config.launch line env' ∧
      ∀ (execute : Executor) (mode : CommandMode),
        Host.process execute config mode line env
          = Host.process execute config mode line env') ∧
    (config.exportVariables = false →
      ∀ env' : Environment, config.launch line env = config.launch line env') := by
  refine ⟨rfl, rfl, rfl, ?_, nodup_keys_overlay hdistinct, ?_, ?_, ?_⟩
  · intro name text
    rw [mem_overlay_iff hdistinct, Environment.Exports]
    refine and_congr_right fun _ => and_congr_right fun _ => ?_
    constructor
    · rintro ⟨v, hget, htext⟩
      cases htext with
      | text => exact .inl hget
      | bool b => exact .inr ⟨b, hget, rfl⟩
    · rintro (hget | ⟨b, hget, rfl⟩)
      · exact ⟨.text text, hget, .text text⟩
      · exact ⟨.bool b, hget, .bool b⟩
  · intro env' hdistinct'
    exact launch_eq_iff hdistinct hdistinct'
  · intro env' hdistinct' hagree
    have hlaunch : config.launch line env = config.launch line env' :=
      (launch_eq_iff hdistinct hdistinct').2 fun _ => Environment.exports_of_agree hagree
    exact ⟨hlaunch, fun execute mode => process_of_launch_eq hlaunch execute mode⟩
  · intro hoff env'
    simp only [Config.launch, hoff]
    rfl

/-- Two environments in different orders, one with a structure, both with a name that is not
exportable: the same variables reach the command. -/
theorem launch_exact_of_reordered :
    (Environment.mk [("a=b", .text "x"), ("name", .text "kim"), ("_ok", .bool true)]).names.Nodup ∧
    (Environment.mk [("_ok", .bool true), ("l", .list []), ("é", .text "y"),
      ("name", .text "kim")]).names.Nodup ∧
    ("_ok", "true") ∈ (Config.default.launch "env"
      ⟨[("a=b", .text "x"), ("name", .text "kim"), ("_ok", .bool true)]⟩).overlay ∧
    Config.default.launch "env" ⟨[("a=b", .text "x"), ("name", .text "kim"), ("_ok", .bool true)]⟩
      = Config.default.launch "env" ⟨[("_ok", .bool true), ("l", .list []), ("é", .text "y"),
        ("name", .text "kim")]⟩ := by
  have hdistinct : (Environment.mk [("a=b", .text "x"), ("name", .text "kim"),
      ("_ok", .bool true)]).names.Nodup := by decide
  have hdistinct' : (Environment.mk [("_ok", .bool true), ("l", .list []), ("é", .text "y"),
      ("name", .text "kim")]).names.Nodup := by decide
  obtain ⟨-, -, -, hoverlay, -, -, hagree, -⟩ := launch_exact .default "env" _ hdistinct
  refine ⟨hdistinct, hdistinct', ?_, (hagree _ hdistinct' ?_).1⟩
  · rw [hoverlay]
    exact ⟨rfl, isExportableName_iff.1 (by decide), .inr ⟨true, by decide, rfl⟩⟩
  · intro name v hname hv
    have hequal : "a=b" ≠ name := by
      rintro rfl
      exact absurd (isExportableName_iff.2 hname) (by decide)
    have haccent : "é" ≠ name := by
      rintro rfl
      exact absurd (isExportableName_iff.2 hname) (by decide)
    have hlist : .list [] ≠ v := by
      rcases hv with ⟨s, rfl⟩ | ⟨b, rfl⟩
      · simp
      · simp
    simp only [Environment.get?, Bindings.find?, if_neg hequal, if_neg haccent]
    by_cases hok : "_ok" = name
    · have hother : "name" ≠ name := by
        rintro rfl
        exact absurd hok (by decide)
      rw [if_neg hother, if_pos hok, if_pos hok]
    · -- the list is bound to a name of its own
      rw [if_neg hok, if_neg hok]
      by_cases hl : "l" = name
      · subst hl
        simp [hlist]
      · rw [if_neg hl]

end CueScript
