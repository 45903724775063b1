/-!
# CueScript.Proofs.Except — results that are mapped or handed on

A mapped result is a success exactly when the result is one; a failure stays as it is. Two steps
succeed together when both do.
-/

namespace Except

variable {ε α β : Type} {f : α → β} {r : Except ε α} {b : β} {e : ε}

theorem map_eq_ok_iff : r.map f = .ok b ↔ ∃ a, r = .ok a ∧ f a = b := by
  cases r with
  | ok a => simp [Except.map]
  | error e => simp [Except.map]

theorem map_eq_error_iff : r.map f = .error e ↔ r = .error e := by
  cases r with
  | ok a => simp [Except.map]
  | error e => simp [Except.map]

theorem bind_eq_ok_iff {g : α → Except ε β} : (r >>= g) = .ok b ↔ ∃ a, r = .ok a ∧ g a = .ok b := by
  cases r with
  | ok a => simp [bind, Except.bind]
  | error e => simp [bind, Except.bind]

/-- A success is handed on as it is. -/
theorem ok_bind (a : α) (g : α → Except ε β) : (Except.ok a >>= g) = g a := rfl

theorem pure_eq_ok (a : α) : (pure a : Except ε α) = .ok a := rfl

end Except
