import CueScript.Host.Basic

/-!
# CueScript.Traced — results with the calls that led to them

Evaluation may ask a host to run commands. A `Traced` result carries the calls that were made for
it, in order, beside the result itself.
-/

namespace CueScript

/-- A command line that a host was asked to run. -/
structure Call where
  mode : CommandMode
  line : String
deriving Repr, DecidableEq

/-- A result with the calls made for it, first call first. -/
structure Traced (α : Type) where
  result : α
  calls : List Call
deriving Repr, DecidableEq

namespace Traced

variable {α β : Type}

/-- A result that needs no call. -/
def quiet (a : α) : Traced α := ⟨a, []⟩

/-- Changes the result and keeps the calls. -/
def map (f : α → β) (t : Traced α) : Traced β := ⟨f t.result, t.calls⟩

@[simp] theorem result_quiet (a : α) : (quiet a).result = a := rfl

@[simp] theorem calls_quiet (a : α) : (quiet a).calls = [] := rfl

@[simp] theorem result_map (f : α → β) (t : Traced α) : (t.map f).result = f t.result := rfl

@[simp] theorem calls_map (f : α → β) (t : Traced α) : (t.map f).calls = t.calls := rfl

end Traced

end CueScript
