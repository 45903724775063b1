import CueScript.Host.Scripted
import CueScript.Proofs.Assignment
import CueScript.Proofs.Readings

/-!
# CueScript.Proofs.ReadBack — variables read as they were assigned

After an assignment to two variables the first one is as true as the expression was. Behind
`defined` the second one is its value, of whatever type. All other variables read as they did before.
-/

namespace CueScript

/-- What is assigned to two variables is read back. The first one is as true as the right-hand side
was in the old environment. The second one is defined, with exactly the value of the right-hand
side; alone it is that value when it is true, and otherwise false with the empty text. Every other
variable reads as it did before, alone and behind `defined`. No host is called for any of this. -/
theorem assigned_values_read_back {host : Host} {env env' : Environment} {lhs a b : String}
    {rhs : Value} (htargets : Targets.parse lhs = .ok (.logicalAndValue a b)) (hab : a ≠ b)
    (hassign : (assign host env lhs rhs).result = (env', .ok ())) :
    ∃ r, (evaluate host env rhs).result = .ok r ∧ ∀ reader : Host,
      evaluateText reader env' (Syntax.braced a)
        = .quiet (.ok ⟨r.logical, if r.logical then .bool true else .empty⟩) ∧
      evaluateText reader env' ("defined " ++ Syntax.braced b) = .quiet (.ok ⟨true, r.value⟩) ∧
      evaluateText reader env' (Syntax.braced b)
        = .quiet (.ok (if r.value.isTruthy then ⟨true, r.value⟩ else ⟨false, .empty⟩)) ∧
      ∀ c, c ≠ a → c ≠ b →
        evaluateText reader env' (Syntax.braced c) = evaluateText reader env (Syntax.braced c) ∧
        evaluateText reader env' ("defined " ++ Syntax.braced c)
          = evaluateText reader env ("defined " ++ Syntax.braced c) ∧
        (evaluateText reader env' (Syntax.braced c)).calls = [] ∧
        (evaluateText reader env' ("defined " ++ Syntax.braced c)).calls = [] := by
  rcases exists_of_assign hassign with ⟨targets, r, ht, hr, rfl⟩
  rw [htargets] at ht
  obtain rfl := Except.ok.inj ht
  have ha : (Targets.bind (.logicalAndValue a b) r env).get? a = some (.bool r.logical) := by
    simp [get?_bind, Targets.pairs, Bindings.find?, Ne.symm hab]
  have hb : (Targets.bind (.logicalAndValue a b) r env).get? b = some r.value := by
    simp [get?_bind, Targets.pairs, Bindings.find?]
  refine ⟨r, hr, ?_⟩
  intro reader
  refine ⟨?_, ?_, ?_, ?_⟩
  · rw [evaluateText_lookup reader (Syntax.parse_braced a) ha, Value.isTruthy]
    cases r.logical with
    | true => rfl
    | false => rfl
  · exact evaluateText_defined reader (Syntax.parse_defined_braced b) hb
  · rw [evaluateText_lookup reader (Syntax.parse_braced b) hb]
    cases r.value.isTruthy with
    | true => rfl
    | false => rfl
  · intro c hca hcb
    have hc : (Targets.bind (.logicalAndValue a b) r env).get? c = env.get? c :=
      get?_bind_of_not_mem _ r env (by simp [Targets.names, hca, hcb])
    exact ⟨evaluateText_of_reads (Syntax.parse_braced c) rfl hc,
      evaluateText_of_reads (Syntax.parse_defined_braced c) rfl hc,
      calls_of_reads (Syntax.parse_braced c) rfl,
      calls_of_reads (Syntax.parse_defined_braced c) rfl⟩

/-- An empty list, assigned from a negated expression: its variable is false, and still defined. -/
theorem assigned_values_read_back_of_empty_list :
    Targets.parse "$ok, $\x7bout\x7d" = .ok (.logicalAndValue "ok" "out") ∧ "ok" ≠ "out" ∧
    (assign (Host.scripted []) (.ofPairs [("src", .list [])]) "$ok, $\x7bout\x7d"
      (.text "not defined $src")).result
        = (.ofPairs [("src", .list []), ("ok", .bool false), ("out", .list [])], .ok ()) ∧
    ∀ reader : Host,
      evaluateText reader
          (.ofPairs [("src", .list []), ("ok", .bool false), ("out", .list [])])
          ("defined " ++ Syntax.braced "out") = .quiet (.ok ⟨true, .list []⟩) ∧
      evaluateText reader
          (.ofPairs [("src", .list []), ("ok", .bool false), ("out", .list [])])
          (Syntax.braced "out") = .quiet (.ok ⟨false, .empty⟩) := by
  have htargets : Targets.parse "$ok, $\x7bout\x7d" = .ok (.logicalAndValue "ok" "out") := by decide
  have hassign : (assign (Host.scripted []) (.ofPairs [("src", .list [])]) "$ok, $\x7bout\x7d"
      (.text "not defined $src")).result
        = (.ofPairs [("src", .list []), ("ok", .bool false), ("out", .list [])], .ok ()) := rfl
  rcases assigned_values_read_back htargets (by decide) hassign with ⟨r, hr, hread⟩
  obtain rfl : ⟨false, .list []⟩ = r := Except.ok.inj hr
  refine ⟨htargets, by decide, hassign, ?_⟩
  intro reader
  obtain ⟨-, hdefined, halone, -⟩ := hread reader
  exact ⟨hdefined, halone⟩

end CueScript
