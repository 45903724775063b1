import Mathlib.Data.List.Induction
import CueScript.Proofs.Syntax.Json
import CueScript.Proofs.Value.Sorted

/-!
# CueScript.Proofs.Syntax.Decoding — a printed parse tree is read back

1. **Tables**: a table whose members come with their keys in order is the object of these members.
2. **Expressions**, 3. **Loop headers**: the value that the document shows, and what it was made of.
4. **Printed**: `printed_syntax_read_back` puts the text in the place of the document.
-/

namespace CueScript

/-! ## Tables -/

namespace Json.Node

/-- A key behind all others is put at the end. -/
theorem insertMember_of_last {key : List StringUnit} {x : Node}
    {table : List (List StringUnit × Node)} (h : ∀ m ∈ table, keyLe key m.1 = false) :
    insertMember key x table = table ++ [(key, x)] := by
  induction table with
  | nil => rfl
  | cons m table ih =>
      rcases m with ⟨k, y⟩
      have hbehind : keyLe key k = false := h (k, y) List.mem_cons_self
      have hne : k ≠ key := by
        rintro rfl
        rw [keyLe_refl] at hbehind
        cases hbehind
      have hrest := ih fun m hm => h m (List.mem_cons_of_mem _ hm)
      rw [insertMember, if_neg hne, hbehind, if_neg Bool.false_ne_true, hrest, List.cons_append]

/-- Nothing moves when each key comes behind those before it. -/
theorem ofTable_eq_ofMembers {ms : List (String × Node)}
    (h : ms.Pairwise fun m n => keyLe (unitsOf n.1) (unitsOf m.1) = false) :
    ofTable ms = ofMembers ms := by
  rw [ofTable, ofMembers, Node.object.injEq]
  -- the table grows at its end
  induction ms using List.reverseRecOn with
  | nil => rfl
  | append_singleton ms n ih =>
      obtain ⟨hms, -, hlast⟩ := List.pairwise_append.1 h
      have hbehind : ∀ m ∈ ms.map fun m => (unitsOf m.1, m.2), keyLe (unitsOf n.1) m.1 = false := by
        intro m hm
        obtain ⟨m', hm', rfl⟩ := List.mem_map.1 hm
        exact hlast m' hm' n (List.mem_singleton_self n)
      rw [List.foldl_append, ih hms, List.map_append]
      exact insertMember_of_last hbehind

end Json.Node

/-! ## Expressions -/

def Expression.toValue (e : Expression) : Value :=
  .mapping [("negated", .bool e.negated),
    ("expr", .mapping [(e.form.tag, .text e.form.payload)])]

def Form.ofTag? (tag payload : String) : Option Form :=
  if tag = "CommandSub" then some (.command payload)
  else if tag = "Variable" then some (.lookup payload)
  else if tag = "Defined" then some (.defined payload)
  else none

def Expression.ofValue? : Value → Option Expression
  | .mapping [("negated", .bool negated), ("expr", .mapping [(tag, .text payload)])] =>
    (Form.ofTag? tag payload).map (Expression.mk negated)
  | _ => none

namespace Expression

variable (e : Expression)

theorem toNode_toValue : e.toValue.toNode = e.toNode := rfl

theorem ofValue?_toValue : ofValue? e.toValue = some e := by
  rcases e with ⟨negated, form⟩
  cases form with
  | command line => rfl
  | lookup name => rfl
  | defined name => rfl

theorem ofJson?_compact : Value.ofJson? e.toNode.compact = some e.toValue := by
  have hkeys : e.toValue.DistinctKeys := by
    simp [toValue, Value.DistinctKeys, Value.DistinctKeysEntries, Bindings.keys]
  have hdepth : e.toValue.depth = 2 := rfl
  apply Value.ofJson?_compact_of_toNode_eq e.toNode_toValue hkeys
  rw [hdepth]
  decide

end Expression

/-! ## Loop headers -/

def LoopHeader.toValue (h : LoopHeader) : Value :=
  .mapping [("control_vars", .list (h.vars.names.map .text)), ("expression", .text h.expression)]

def LoopHeader.ofValue? : Value → Option LoopHeader
  | .mapping [("control_vars", .list [.text name]), ("expression", .text expression)] =>
    some ⟨.single name, expression⟩
  | .mapping [("control_vars", .list [.text key, .text name]), ("expression", .text expression)] =>
    some ⟨.pair key name, expression⟩
  | _ => none

namespace LoopHeader

variable (h : LoopHeader)

/-- The keys of the table are put in in their order. -/
theorem toTable_eq_toNode : h.toTable = h.toNode := by
  have hkeys : Json.Node.keyLe (Json.unitsOf "expression") (Json.unitsOf "control_vars") = false :=
    by decide
  exact Json.Node.ofTable_eq_ofMembers (List.pairwise_pair.2 hkeys)

theorem toNode_toValue : h.toValue.toNode = h.toNode := by
  rcases h with ⟨vars, expression⟩
  cases vars with
  | single name => rfl
  | pair key name => rfl

theorem ofValue?_toValue : ofValue? h.toValue = some h := by
  rcases h with ⟨vars, expression⟩
  cases vars with
  | single name => rfl
  | pair key name => rfl

theorem ofJson?_compact : Value.ofJson? h.toNode.compact = some h.toValue := by
  have hkeys : h.toValue.DistinctKeys := by
    simp [toValue, Value.DistinctKeys, Value.DistinctKeysEntries, Value.distinctKeysItems_iff,
      Bindings.keys]
  have hdepth : h.toValue.depth = 2 := by
    rcases h with ⟨vars, expression⟩
    cases vars with
    | single name => rfl
    | pair key name => rfl
  apply Value.ofJson?_compact_of_toNode_eq h.toNode_toValue hkeys
  rw [hdepth]
  decide

end LoopHeader

/-! ## Printed -/

/-- Nothing is lost when a parse tree is printed, whatever characters its names and texts have. The
text of an expression is read back as a mapping: first whether the expression is negated, then its
form by its tag, with what it holds. The expression is made of this value again, so two expressions
are printed alike only when they are the same. The text of a loop header is the same whether it is
printed as a table or field by field. It is read back as the list of the one or two names and the
expression, and the header is made of this value again. -/
theorem printed_syntax_read_back :
    (∀ e : Expression, Value.ofJson? e.toNode.compact
        = some (.mapping [("negated", .bool e.negated),
          ("expr", .mapping [(e.form.tag, .text e.form.payload)])])) ∧
    (∀ e : Expression, (Value.ofJson? e.toNode.compact).bind Expression.ofValue? = some e) ∧
    (∀ e e' : Expression, e.toNode.compact = e'.toNode.compact ↔ e = e') ∧
    (∀ h : LoopHeader, h.toTable.compact = h.toNode.compact) ∧
    (∀ h : LoopHeader, Value.ofJson? h.toTable.compact
        = some (.mapping [("control_vars", .list (h.vars.names.map .text)),
          ("expression", .text h.expression)])) ∧
    (∀ h : LoopHeader, (Value.ofJson? h.toTable.compact).bind LoopHeader.ofValue? = some h) := by
  refine ⟨Expression.ofJson?_compact, ?_, ?_, ?_, ?_, ?_⟩
  · intro e
    rw [e.ofJson?_compact, Option.bind_some, e.ofValue?_toValue]
  · intro e e'
    rw [Json.Node.compact_injective.eq_iff, Expression.toNode_injective.eq_iff]
  · intro h
    rw [h.toTable_eq_toNode]
  · intro h
    rw [h.toTable_eq_toNode]
    exact h.ofJson?_compact
  · intro h
    rw [h.toTable_eq_toNode, h.ofJson?_compact, Option.bind_some, h.ofValue?_toValue]

/-- The quote and the line feed of a command are escaped. -/
example : (⟨true, .command "a\"\n"⟩ : Expression).toNode.compact
    = "\x7b\"negated\":true,\"expr\":\x7b\"CommandSub\":\"a\\\"\\n\"\x7d\x7d" := by
  decide

end CueScript
