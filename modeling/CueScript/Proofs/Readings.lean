import CueScript.Host.Scripted
import CueScript.Proofs.Calls
import CueScript.Proofs.Syntax.Expression

/-!
# CueScript.Proofs.Readings — what reading a variable comes to

1. **Truth**: `Value.Truthy` lists the values that count as true.
2. **Readings**: a look-up and a `defined` ask about one variable. Their results depend on what is
   bound to it and on nothing else; no host is called.
3. **Results**: what a look-up and a `defined` come to, for a bound variable and for an unbound one.
4. **Sources**: the value of an expression is a text, the value of a variable, or a literal.
5. **Semantics**: `variable_reading_exact` settles every text that reads a variable, and every value.
-/

namespace CueScript

/-! ## Truth -/

/-- The values that count as true: `true` itself, and every text, list and mapping that is not
empty. -/
inductive Value.Truthy : Value → Prop where
  | text {s : String} (nonempty : s ≠ "") : Truthy (.text s)
  | bool : Truthy (.bool true)
  | list {items : List Value} (nonempty : items ≠ []) : Truthy (.list items)
  | mapping {entries : List (String × Value)} (nonempty : entries ≠ []) : Truthy (.mapping entries)

theorem Value.truthy_iff {v : Value} : v.Truthy ↔ v.isTruthy = true := by
  constructor
  · intro h
    cases h with
    | text nonempty => simpa [isTruthy] using nonempty
    | bool => rfl
    | list nonempty => simpa [isTruthy] using nonempty
    | mapping nonempty => simpa [isTruthy] using nonempty
  · intro h
    cases v with
    | text s => exact .text (by simpa [isTruthy] using h)
    | bool b =>
        obtain rfl : b = true := h
        exact .bool
    | list items => exact .list (by simpa [isTruthy] using h)
    | mapping entries => exact .mapping (by simpa [isTruthy] using h)

theorem Value.not_truthy_iff {v : Value} : ¬ v.Truthy ↔ v.isTruthy = false := by
  rw [truthy_iff, Bool.not_eq_true]

/-! ## Readings -/

section Readings

variable {host host' : Host} {env env' : Environment} {text name : String} {e : Expression}
  {f : Form}

/-- The variable that a form asks about. -/
def Form.reads? : Form → Option String
  | command _ => none
  | lookup name | defined name => some name

theorem Form.evaluate_of_reads (hf : f.reads? = some name) (h : env.get? name = env'.get? name) :
    f.evaluate host env = f.evaluate host' env' := by
  cases f with
  | command line => exact absurd hf (by simp [reads?])
  | lookup n =>
      obtain rfl : n = name := Option.some.inj hf
      simp only [evaluate, h]
  | defined n =>
      obtain rfl : n = name := Option.some.inj hf
      simp only [evaluate, Environment.contains, h]

theorem Form.calls_of_reads (hf : f.reads? = some name) : (f.evaluate host env).calls = [] := by
  cases f with
  | command line => exact absurd hf (by simp [reads?])
  | lookup n =>
      rw [evaluate]
      cases env.get? n with
      | none => rfl
      | some v => rfl
  | defined n => rfl

/-- Environments in which a variable has the same binding are not told apart by reading it. -/
theorem evaluateText_of_reads (hparse : Expression.parse text = .ok e)
    (he : e.form.reads? = some name) (h : env.get? name = env'.get? name) :
    evaluateText host env text = evaluateText host' env' text := by
  have hform : e.form.evaluate host env = e.form.evaluate host' env' := Form.evaluate_of_reads he h
  simp only [evaluateText, hparse, Expression.evaluate, hform]

/-- Nothing is run to read a variable. -/
theorem calls_of_reads (hparse : Expression.parse text = .ok e) (he : e.form.reads? = some name) :
    (evaluateText host env text).calls = [] := by
  rw [evaluateText, hparse]
  exact Form.calls_of_reads he

end Readings

/-! ## Results -/

section Results

variable {env : Environment} {text n : String} {v : Value}

/-- A look-up of a bound variable has its value, or the empty text in place of a false one. -/
theorem evaluateText_lookup (host : Host) (hparse : Expression.parse text = .ok ⟨false, .lookup n⟩)
    (hget : env.get? n = some v) :
    evaluateText host env text
      = .quiet (.ok ⟨v.isTruthy, if v.isTruthy then v else .empty⟩) := by
  simp only [evaluateText, hparse, Expression.evaluate, Form.evaluate, hget]
  cases hv : v.isTruthy with
  | true => simp [Traced.map, Traced.quiet]
  | false => simp [Traced.map, Traced.quiet]

/-- An unbound variable reads as a false one. -/
theorem evaluateText_lookup_unbound (host : Host)
    (hparse : Expression.parse text = .ok ⟨false, .lookup n⟩) (hget : env.get? n = none) :
    evaluateText host env text = .quiet (.ok ⟨false, .empty⟩) := by
  simp only [evaluateText, hparse, Expression.evaluate, Form.evaluate, hget]
  rfl

/-- A bound variable is defined, and `defined` gives its value whether it is true or not. -/
theorem evaluateText_defined (host : Host)
    (hparse : Expression.parse text = .ok ⟨false, .defined n⟩) (hget : env.get? n = some v) :
    evaluateText host env text = .quiet (.ok ⟨true, v⟩) := by
  simp [evaluateText, hparse, Expression.evaluate, Form.evaluate, Environment.contains, hget,
    Traced.map, Traced.quiet]

theorem evaluateText_defined_unbound (host : Host)
    (hparse : Expression.parse text = .ok ⟨false, .defined n⟩) (hget : env.get? n = none) :
    evaluateText host env text = .quiet (.ok ⟨false, .empty⟩) := by
  simp [evaluateText, hparse, Expression.evaluate, Form.evaluate, Environment.contains, hget,
    Traced.map, Traced.quiet]

/-- A variable that is bound to a true value is read as it is. -/
theorem evaluateText_lookup_of_truthy (host : Host)
    (hparse : Expression.parse text = .ok ⟨false, .lookup n⟩) (hget : env.get? n = some v)
    (hv : v.Truthy) : evaluateText host env text = .quiet (.ok ⟨true, v⟩) := by
  rw [evaluateText_lookup host hparse hget, Value.truthy_iff.1 hv]
  rfl

/-- A variable that is bound to a false value reads like one that is not bound. -/
theorem evaluateText_lookup_of_not_truthy (host : Host)
    (hparse : Expression.parse text = .ok ⟨false, .lookup n⟩)
    (hv : ∀ v, env.get? n = some v → ¬ v.Truthy) :
    evaluateText host env text = .quiet (.ok ⟨false, .empty⟩) := by
  cases hget : env.get? n with
  | none => exact evaluateText_lookup_unbound host hparse hget
  | some v =>
      rw [evaluateText_lookup host hparse hget, Value.not_truthy_iff.1 (hv v hget)]
      rfl

/-- A literal stands for itself. -/
theorem evaluate_literal (host : Host) (env : Environment) (hv : ∀ s, v ≠ .text s) :
    evaluate host env v = .quiet (.ok ⟨v.isTruthy, v⟩) := by
  cases v with
  | text s => exact absurd rfl (hv s)
  | bool b => rfl
  | list items => rfl
  | mapping entries => rfl

end Results

/-! ## Sources -/

section Sources

variable {host : Host} {env : Environment}

/-- A form has a text for its value, or the value of a variable. -/
theorem Form.value_cases (f : Form) :
    (∃ s, (f.evaluate host env).result.value = .text s) ∨
      ∃ name, env.get? name = some (f.evaluate host env).result.value := by
  cases f with
  | command line =>
      left
      exact exists_observe_value (host .unchecked line env)
  | lookup name =>
      rw [evaluate]
      cases hget : env.get? name with
      | none => exact .inl ⟨"", rfl⟩
      | some v =>
          cases hv : v.isTruthy with
          | true => exact .inr ⟨name, by simpa [hv] using hget⟩
          | false => exact .inl ⟨"", by simp [hv, Value.empty]⟩
  | defined name =>
      rw [evaluate]
      cases hget : env.get? name with
      | none => exact .inl ⟨"", rfl⟩
      | some v => exact .inr ⟨name, hget⟩

/-- No other values come out of an evaluation. -/
theorem value_of_evaluate {rhs : Value} {r : Evaluation}
    (hr : (evaluate host env rhs).result = .ok r) :
    (∃ s, r.value = .text s) ∨ (∃ name, env.get? name = some r.value) ∨ r.value = rhs := by
  by_cases htext : ∃ s, rhs = .text s
  · obtain ⟨s, rfl⟩ := htext
    rw [evaluate, evaluateText] at hr
    cases hparse : Expression.parse s with
    | error e => simp [hparse] at hr
    | ok e =>
        rw [hparse] at hr
        obtain rfl := Except.ok.inj hr
        rcases e.form.value_cases with hs | hname
        · exact .inl hs
        · exact .inr (.inl hname)
  · have hliteral : ∀ s, rhs ≠ .text s := not_exists.1 htext
    rw [evaluate_literal host env hliteral] at hr
    obtain rfl := Except.ok.inj hr
    exact .inr (.inr rfl)

end Sources

/-! ## Semantics -/

/-- What reading a variable comes to, however it is spelled. A look-up is true with the value of the
variable when it is bound to a true value; otherwise it is false with the empty text. A `defined` is
true of a bound variable, with its value whatever it is, and false of an unbound one, with the empty
text. So a variable that is true is defined, with the same value. Nothing but the one binding counts:
all hosts and all environments with the same binding give the same results, negated or not. A text is
the expression that it spells; any other value is as true as itself, stands for itself, and never
fails. No host is called for any of this. -/
theorem variable_reading_exact (host : Host) (env : Environment) (name : String) :
    (∀ text, Expression.parse text = .ok ⟨false, .lookup name⟩ →
      (∀ v, env.get? name = some v → v.Truthy →
        evaluateText host env text = .quiet (.ok ⟨true, v⟩)) ∧
      ((∀ v, env.get? name = some v → ¬ v.Truthy) →
        evaluateText host env text = .quiet (.ok ⟨false, .text ""⟩))) ∧
    (∀ text, Expression.parse text = .ok ⟨false, .defined name⟩ →
      (∀ v, env.get? name = some v → evaluateText host env text = .quiet (.ok ⟨true, v⟩)) ∧
      (name ∉ env.names → evaluateText host env text = .quiet (.ok ⟨false, .text ""⟩))) ∧
    (∀ text text' v, Expression.parse text = .ok ⟨false, .lookup name⟩ →
      Expression.parse text' = .ok ⟨false, .defined name⟩ →
      (evaluateText host env text).result = .ok ⟨true, v⟩ →
      (evaluateText host env text').result = .ok ⟨true, v⟩) ∧
    (∀ text e, Expression.parse text = .ok e → e.form.reads? = some name →
      ∀ (host' : Host) (env' : Environment), env.get? name = env'.get? name →
        evaluateText host env text = evaluateText host' env' text) ∧
    (∀ s, evaluate host env (.text s) = evaluateText host env s) ∧
    (∀ v, (∀ s, v ≠ .text s) →
      (v.Truthy → evaluate host env v = .quiet (.ok ⟨true, v⟩)) ∧
      (¬ v.Truthy → evaluate host env v = .quiet (.ok ⟨false, v⟩))) := by
  refine ⟨?_, ?_, ?_, ?_, fun s => rfl, ?_⟩
  · intro text hparse
    constructor
    · intro v hget htrue
      exact evaluateText_lookup_of_truthy host hparse hget htrue
    · intro hfalse
      exact evaluateText_lookup_of_not_truthy host hparse hfalse
  · intro text hparse
    constructor
    · intro v hget
      exact evaluateText_defined host hparse hget
    · intro hunbound
      have hget : env.get? name = none := by
        rw [← Option.not_isSome_iff_eq_none]
        exact fun h => hunbound ((Bindings.find?_isSome_iff name env.bindings).1 h)
      exact evaluateText_defined_unbound host hparse hget
  · intro text text' v hparse hparse' hresult
    cases hget : env.get? name with
    | none =>
        -- an unbound variable is not true
        rw [evaluateText_lookup_unbound host hparse hget] at hresult
        exact absurd hresult (by simp)
    | some w =>
        rw [evaluateText_lookup host hparse hget] at hresult
        obtain ⟨htrue, hvalue⟩ := Evaluation.mk.inj (Except.ok.inj hresult)
        rw [if_pos htrue] at hvalue
        rw [evaluateText_defined host hparse' hget, hvalue]
        rfl
  · intro text e hparse he host' env' hsame
    exact evaluateText_of_reads hparse he hsame
  · intro v hliteral
    rw [evaluate_literal host env hliteral]
    constructor
    · intro htrue
      rw [Value.truthy_iff.1 htrue]
    · intro hfalse
      rw [Value.not_truthy_iff.1 hfalse]

/-- A variable in braces, between two kinds of quotes, with blanks around it: it is bound to `false`,
so that it reads as a false one and is still defined. A list is true when its items are empty. -/
theorem variable_reading_exact_of_false_flag :
    Expression.parse " \"$\x7boff\x7d'\n" = .ok ⟨false, .lookup "off"⟩ ∧
    evaluateText (Host.scripted []) (.ofPairs [("off", .bool false)]) " \"$\x7boff\x7d'\n"
      = .quiet (.ok ⟨false, .text ""⟩) ∧
    Expression.parse "defined '$off" = .ok ⟨false, .defined "off"⟩ ∧
    evaluateText (Host.scripted []) (.ofPairs [("off", .bool false)]) "defined '$off"
      = .quiet (.ok ⟨true, .bool false⟩) ∧
    evaluate (Host.scripted []) (.ofPairs [("off", .bool false)]) (.list [.empty])
      = .quiet (.ok ⟨true, .list [.empty]⟩) := by
  have hlookup : Expression.parse " \"$\x7boff\x7d'\n" = .ok ⟨false, .lookup "off"⟩ := by decide
  have hdefined : Expression.parse "defined '$off" = .ok ⟨false, .defined "off"⟩ := by decide
  have hget : (Environment.ofPairs [("off", .bool false)]).get? "off" = some (.bool false) := rfl
  obtain ⟨hread, hask, -, -, -, hliteral⟩ :=
    variable_reading_exact (Host.scripted []) (.ofPairs [("off", .bool false)]) "off"
  refine ⟨hlookup, ?_, hdefined, ?_, ?_⟩
  · apply (hread _ hlookup).2
    intro v hv htrue
    obtain rfl : .bool false = v := Option.some.inj (hget.symm.trans hv)
    cases htrue
  · exact (hask _ hdefined).1 _ hget
  · exact (hliteral (.list [.empty]) (by simp)).1 (.list (by simp))

end CueScript
