import CueScript.Proofs.Loops
import CueScript.Proofs.Syntax.Json
import CueScript.Proofs.Value.Json

/-!
# CueScript.Proofs.LoopDocument — the document of a resolved loop determines the loop

An item is written without a tag. A pair is an array of two, and so is a list of two values, so that
items of different kinds can share a document. The items of a resolved loop are of one kind, and its
control variables say of which.

1. **Items**: which items go with which control variables, and that their documents keep them apart.
2. **Loops**: a resolved loop has no other items; its document determines it.
-/

namespace CueScript

/-! ## Items -/

/-- The items that go with the given control variables: a text with one, a key and a value with
two. -/
inductive LoopItem.Fits : ControlVars → LoopItem → Prop
  | text {name s : String} : Fits (.single name) (.scalar (.text s))
  | entry {key name k : String} {v : Value} : Fits (.pair key name) (.pair k v)

/-- Items for the same control variables never share a document. -/
theorem LoopItem.eq_of_toNode_eq {vars : ControlVars} {item item' : LoopItem}
    (h : item.Fits vars) (h' : item'.Fits vars) (hnode : item.toNode = item'.toNode) :
    item = item' := by
  cases h with
  | text =>
      cases h' with
      | text => rw [Value.toNode_injective hnode]
  | entry =>
      cases h' with
      | entry =>
          have hitems := Json.Node.array.inj hnode
          rw [List.cons.injEq, List.cons.injEq] at hitems
          obtain ⟨hkey, hvalue, -⟩ := hitems
          rw [Json.Node.ofString_injective hkey, Value.toNode_injective hvalue]

/-- A list of a text and a value is written like the pair of the two. -/
theorem LoopItem.toNode_scalar_list (key : String) (v : Value) :
    (scalar (.list [.text key, v])).toNode = (pair key v).toNode := rfl

/-- The items of a value go with the control variables that it is taken apart for. -/
theorem Loop.fits_of_ofValue {vars : ControlVars} {text : String} {v : Value}
    {items : List LoopItem} (h : ofValue vars text v = .ok items) :
    ∀ item ∈ items, item.Fits vars := by
  cases vars with
  | single name =>
      by_cases htext : ∃ s, v = .text s
      · obtain ⟨s, rfl⟩ := htext
        obtain rfl := Except.ok.inj h
        intro item hitem
        obtain ⟨w, -, rfl⟩ := List.mem_map.1 hitem
        exact .text
      · have hother : ∀ s, v ≠ .text s := not_exists.1 htext
        rw [ofValue_single hother] at h
        obtain rfl := Except.ok.inj h
        exact List.forall_mem_nil _
  | pair key name =>
      by_cases hmapping : ∃ entries, v = .mapping entries
      · obtain ⟨entries, rfl⟩ := hmapping
        obtain rfl := Except.ok.inj h
        intro item hitem
        obtain ⟨e, -, rfl⟩ := List.mem_map.1 hitem
        exact .entry
      · have hother : ∀ entries, v ≠ .mapping entries := not_exists.1 hmapping
        rw [ofValue_pair hother] at h
        cases h

/-! ## Loops -/

/-- All items of the loop go with its control variables. -/
def Loop.Uniform (l : Loop) : Prop :=
  ∀ item ∈ l.items, item.Fits l.vars

/-- Whatever the host answers, the items of a resolved loop are of one kind. -/
theorem uniform_of_resolveLoop {host : Host} {env : Environment} {header : String} {l : Loop}
    (h : (resolveLoop host env header).result = .ok l) : l.Uniform := by
  cases hparse : LoopHeader.parse header with
  | error e =>
      rw [resolveLoop_of_bad_header hparse] at h
      cases h
  | ok p =>
      rcases p with ⟨vars, text⟩
      rw [resolveLoop_of_header hparse, Traced.result_map] at h
      cases hr : (evaluateText host env text).result with
      | error e =>
          rw [hr] at h
          cases h
      | ok r =>
          rw [hr] at h
          cases hitems : Loop.ofValue vars text r.value with
          | error e =>
              rw [Except.bind, hitems] at h
              cases h
          | ok items =>
              rw [Except.bind, hitems] at h
              obtain rfl := Except.ok.inj h
              exact Loop.fits_of_ofValue hitems

/-- Loops with items of one kind never share a document. The control variables are read off first;
they say how the items are to be read. -/
theorem Loop.eq_of_toNode_eq {l l' : Loop} (h : l.Uniform) (h' : l'.Uniform)
    (hnode : l.toNode = l'.toNode) : l = l' := by
  rcases l with ⟨vars, items⟩
  rcases l' with ⟨vars', items'⟩
  have hmembers := Json.Node.ofMembers_injective hnode
  simp only [List.cons.injEq, Prod.mk.injEq, true_and, and_true, Json.Node.array.injEq] at hmembers
  obtain ⟨hvars, hitems⟩ := hmembers
  obtain rfl := ControlVars.toNode_injective hvars
  have hsame : items = items' :=
    Value.eq_of_map_eq_map
      (fun item hitem item' hitem' => LoopItem.eq_of_toNode_eq (h item hitem) (h' item' hitem'))
      hitems
  rw [hsame]

/-- The printed document of a resolved loop determines the loop, although no item carries a tag.
Whatever headers, environments and hosts two resolved loops come from, they are printed alike only
when they are the same: the same control variables, one in both or two in both, and item by item the
same text, or the same key with the same value, all mappings in their order. Of loops at large this
does not hold, since the list of a text and a value is printed like the pair of the two. No resolved
loop has such a list: each item is a text when there is one control variable, and a pair when there
are two. -/
theorem resolved_loop_determined :
    (∀ (host host' : Host) (env env' : Environment) (header header' : String) (l l' : Loop),
      (resolveLoop host env header).result = .ok l →
      (resolveLoop host' env' header').result = .ok l' →
      (l.toNode.compact = l'.toNode.compact ↔ l = l')) ∧
    (∀ (host : Host) (env : Environment) (header : String) (l : Loop),
      (resolveLoop host env header).result = .ok l → ∀ item ∈ l.items, item.Fits l.vars) ∧
    (∀ (vars : ControlVars) (key : String) (v : Value),
      (Loop.mk vars [.scalar (.list [.text key, v])]).toNode.compact
        = (Loop.mk vars [.pair key v]).toNode.compact) := by
  refine ⟨?_, ?_, ?_⟩
  · intro host host' env env' header header' l l' h h'
    constructor
    · intro hcompact
      exact Loop.eq_of_toNode_eq (uniform_of_resolveLoop h) (uniform_of_resolveLoop h')
        (Json.Node.compact_injective hcompact)
    · rintro rfl
      rfl
  · intro host env header l h
    exact uniform_of_resolveLoop h
  · intro vars key v
    rw [Loop.toNode, Loop.toNode, List.map_singleton, List.map_singleton,
      LoopItem.toNode_scalar_list]

/-- Entries in another order make another document. -/
theorem resolved_loop_determined_of_reordered :
    (resolveLoop (Host.scripted []) (.ofPairs [("m", .mapping [("a", .empty), ("b", .bool true)])])
      "for $k, $v in $m").result
        = .ok ⟨.pair "k" "v", [.pair "a" .empty, .pair "b" (.bool true)]⟩ ∧
    (resolveLoop (Host.scripted []) (.ofPairs [("m", .mapping [("b", .bool true), ("a", .empty)])])
      "for $k, $v in $m").result
        = .ok ⟨.pair "k" "v", [.pair "b" (.bool true), .pair "a" .empty]⟩ ∧
    (Loop.mk (.pair "k" "v") [.pair "a" .empty, .pair "b" (.bool true)]).toNode.compact
      ≠ (Loop.mk (.pair "k" "v") [.pair "b" (.bool true), .pair "a" .empty]).toNode.compact := by
  have h : (resolveLoop (Host.scripted [])
      (.ofPairs [("m", .mapping [("a", .empty), ("b", .bool true)])]) "for $k, $v in $m").result
        = .ok ⟨.pair "k" "v", [.pair "a" .empty, .pair "b" (.bool true)]⟩ := by decide
  have h' : (resolveLoop (Host.scripted [])
      (.ofPairs [("m", .mapping [("b", .bool true), ("a", .empty)])]) "for $k, $v in $m").result
        = .ok ⟨.pair "k" "v", [.pair "b" (.bool true), .pair "a" .empty]⟩ := by decide
  refine ⟨h, h', ?_⟩
  intro hcompact
  have hsame := (resolved_loop_determined.1 _ _ _ _ _ _ _ _ h h').1 hcompact
  exact absurd hsame (by decide)

end CueScript
