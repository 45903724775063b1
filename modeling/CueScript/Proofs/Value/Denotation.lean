import CueScript.Environment
import CueScript.Proofs.Bindings
import CueScript.Proofs.Value.Json

/-!
# CueScript.Proofs.Value.Denotation — which value a document denotes

1. **Relation**: `Value.Denotes` says what a document denotes, one rule for each kind of node. An
   object denotes the merge of its members, wherever it stands.
2. **Reading**: `ofNode?` gives the value that is denoted, so there is at most one.
3. **Texts**: an environment is read from an object that is not too deep; it holds the merge of the
   members.
-/

namespace CueScript

namespace Value

/-! ## Relation -/

/-- A document denotes a value. Null is the empty text and a number its text; items and members are
taken one by one. Of members with one key the first gives the place and the last the value. -/
inductive Denotes : Json.Node → Value → Prop
  | null : Denotes .null (.text "")
  | bool {b : Bool} : Denotes (.bool b) (.bool b)
  | number {n : Json.Number} {s : String} : n.text? = some s → Denotes (.number n) (.text s)
  | string {us : List Json.StringUnit} {s : String} : Json.text? us = some s →
      Denotes (.string us) (.text s)
  | array {items : List Json.Node} {vs : List Value} : List.Forall₂ Denotes items vs →
      Denotes (.array items) (.list vs)
  | object {members : List (List Json.StringUnit × Json.Node)} {ps entries : List (String × Value)} :
      List.Forall₂ (MemberDenotes Denotes) members ps → Bindings.Merged ps entries →
      Denotes (.object members) (.mapping entries)

/-! ## Reading -/

/-- What a document denotes is what is read from it. -/
theorem denotes_iff {node : Json.Node} {v : Value} : Denotes node v ↔ ofNode? node = some v := by
  induction node using Json.Node.induct generalizing v with
  | null =>
      constructor
      · rintro ⟨⟩
        rfl
      · intro h
        obtain rfl := Option.some.inj h
        exact .null
  | bool b =>
      constructor
      · rintro ⟨⟩
        rfl
      · intro h
        obtain rfl := Option.some.inj h
        exact .bool
  | number n =>
      rw [ofNode?, Option.map_eq_some_iff]
      constructor
      · intro h
        cases h with
        | number hs => exact ⟨_, hs, rfl⟩
      · rintro ⟨s, hs, rfl⟩
        exact .number hs
  | string us =>
      rw [ofNode?, Option.map_eq_some_iff]
      constructor
      · intro h
        cases h with
        | string hs => exact ⟨_, hs, rfl⟩
      · rintro ⟨s, hs, rfl⟩
        exact .string hs
  | array items ih =>
      have hitems : ∀ {vs}, itemsOf? items = some vs ↔ List.Forall₂ Denotes items vs :=
        itemsOf?_eq_some_iff fun x hx v => ih x hx
      rw [ofNode?, Option.map_eq_some_iff]
      constructor
      · intro h
        cases h with
        | array hvs => exact ⟨_, hitems.2 hvs, rfl⟩
      · rintro ⟨vs, hvs, rfl⟩
        exact .array (hitems.1 hvs)
  | object members ih =>
      have hmembers : ∀ {ps}, pairsOf? members = some ps ↔
          List.Forall₂ (MemberDenotes Denotes) members ps :=
        pairsOf?_eq_some_iff fun m hm v => ih m hm
      rw [ofNode?, Option.map_eq_some_iff]
      constructor
      · intro h
        cases h with
        | @object _ ps _ hps hmerged =>
            refine ⟨ps, hmembers.2 hps, ?_⟩
            rw [hmerged.eq_ofPairs]
      · rintro ⟨ps, hps, rfl⟩
        exact .object (hmembers.1 hps) (Bindings.merged_ofPairs ps)

theorem pairsOf?_iff_denotes {members : List (List Json.StringUnit × Json.Node)}
    {ps : List (String × Value)} :
    pairsOf? members = some ps ↔ List.Forall₂ (MemberDenotes Denotes) members ps :=
  pairsOf?_eq_some_iff fun _ _ _ => denotes_iff

end Value

/-! ## Texts -/

namespace Environment

/-- From an object that is not too deep the merge of its members is read. -/
theorem ofJson?_eq_some_iff {text : String} {members : List (List Json.StringUnit × Json.Node)}
    (hread : Json.Node.read? text = some (.object members)) {env : Environment} :
    ofJson? text = some env ↔ (Json.Node.object members).depth ≤ Value.maxDepth ∧
      ∃ ps, List.Forall₂ (Value.MemberDenotes Value.Denotes) members ps ∧
        Bindings.Merged ps env.bindings := by
  have hentries : ofJson? text = some env ↔ Value.ofJson? text = some (.mapping env.bindings) := by
    rw [ofJson?, Option.map_eq_some_iff, Value.entriesOfJson?]
    constructor
    · rintro ⟨entries, h, rfl⟩
      split at h
      · next hv => rw [hv, Option.some.inj h]
      · simp at h
    · intro h
      rw [h]
      exact ⟨env.bindings, rfl, rfl⟩
  rw [hentries, Value.ofJson?_eq_some_iff, hread]
  constructor
  · rintro ⟨node, heq, hdepth, hnode⟩
    obtain rfl := Option.some.inj heq
    have hdenotes := Value.denotes_iff.2 hnode
    cases hdenotes with
    | object hps hmerged => exact ⟨hdepth, _, hps, hmerged⟩
  · rintro ⟨hdepth, ps, hps, hmerged⟩
    exact ⟨.object members, rfl, hdepth, Value.denotes_iff.1 (.object hps hmerged)⟩

end Environment

end CueScript
