import CueScript.Proofs.Json.Node
import CueScript.Syntax.Json

/-!
# CueScript.Proofs.Syntax.Json — a printed parse tree determines its construct

1. **Loop headers**, 2. **Expressions**: two of them never share a document.
3. **Apart**: no document is shared between the two kinds, and none of them is `null`.
-/

namespace CueScript

/-! ## Loop headers -/

theorem ControlVars.names_injective : Function.Injective names := by
  intro vars vars' h
  cases vars <;> cases vars' <;> simp_all [names]

theorem ControlVars.toNode_injective : Function.Injective toNode := by
  intro vars vars' h
  exact names_injective (Json.Node.ofString_injective.list_map (Json.Node.array.inj h))

theorem LoopHeader.toNode_injective : Function.Injective toNode := by
  rintro ⟨vars, expression⟩ ⟨vars', expression'⟩ h
  have hmembers := Json.Node.ofMembers_injective h
  simp only [List.cons.injEq, Prod.mk.injEq, true_and, and_true] at hmembers
  obtain rfl := ControlVars.toNode_injective hmembers.1
  obtain rfl := Json.Node.ofString_injective hmembers.2
  rfl

/-! ## Expressions -/

/-- The tag tells the forms apart, so that equal payloads cannot be confused. -/
theorem Form.ext_tag {f g : Form} (htag : f.tag = g.tag) (hpayload : f.payload = g.payload) :
    f = g := by
  cases f <;> cases g <;> simp_all [tag, payload]

theorem Expression.toNode_injective : Function.Injective toNode := by
  rintro ⟨negated, form⟩ ⟨negated', form'⟩ h
  have hmembers := Json.Node.ofMembers_injective h
  simp only [List.cons.injEq, Prod.mk.injEq, true_and, and_true, Json.Node.bool.injEq] at hmembers
  obtain ⟨rfl, hform⟩ := hmembers
  have hmember := Json.Node.ofMembers_injective hform
  simp only [List.cons.injEq, Prod.mk.injEq, and_true] at hmember
  obtain rfl := Form.ext_tag hmember.1 (Json.Node.ofString_injective hmember.2)
  rfl

/-! ## Apart -/

/-- The names of the first members differ. -/
theorem LoopHeader.toNode_ne (h : LoopHeader) (e : Expression) : h.toNode ≠ e.toNode := by
  intro heq
  have hmembers := Json.Node.ofMembers_injective heq
  simp at hmembers

theorem LoopHeader.toNode_ne_null (h : LoopHeader) : h.toNode ≠ .null := by
  intro heq
  cases heq

theorem Expression.toNode_ne_null (e : Expression) : e.toNode ≠ .null := by
  intro heq
  cases heq

end CueScript
