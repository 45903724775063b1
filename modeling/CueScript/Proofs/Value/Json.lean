import Mathlib.Data.List.Forall2
import CueScript.Proofs.Bindings
import CueScript.Proofs.Json.Node
import CueScript.Value.Json

/-!
# CueScript.Proofs.Value.Json — values survive being written and read

1. **Trees**: `Value.induct` is induction over a value. Tests on a list of items or entries hold
   when they hold of all of them.
2. **Items and members**: they are read one by one.
3. **Writing**: the document of a value is as deep as the value, belongs to no other value and
   denotes the value.
4. **Reading**: a value that a document denotes has distinct keys and is no deeper than the
   document.
5. **Round trip**: `value_json_round_trip` puts both together, with the bound on the depth.
-/

namespace CueScript

/-! ## Trees -/

/-- Induction over a value. -/
@[elab_as_elim]
theorem Value.induct {P : Value → Prop} (text : ∀ s, P (.text s)) (bool : ∀ b, P (.bool b))
    (list : ∀ items, (∀ x ∈ items, P x) → P (.list items))
    (mapping : ∀ entries, (∀ e ∈ entries, P e.2) → P (.mapping entries)) : ∀ v : Value, P v
  | .text s => text s
  | .bool b => bool b
  | .list items => list items fun x hx => by
      have hlt : sizeOf x < sizeOf items := List.sizeOf_lt_of_mem hx
      exact Value.induct text bool list mapping x
  | .mapping entries => mapping entries fun e he => by
      have hlt : sizeOf e < sizeOf entries := List.sizeOf_lt_of_mem he
      have hsnd : sizeOf e.2 < sizeOf e := by
        rcases e with ⟨k, x⟩
        simp only [Prod.mk.sizeOf_spec]
        omega
      exact Value.induct text bool list mapping e.2

namespace Value

theorem distinctKeysItems_iff {xs : List Value} :
    DistinctKeysItems xs ↔ ∀ x ∈ xs, x.DistinctKeys := by
  induction xs with
  | nil => simp [DistinctKeysItems]
  | cons x xs ih => simp [DistinctKeysItems, ih]

theorem distinctKeysEntries_iff {es : List (String × Value)} :
    DistinctKeysEntries es ↔ ∀ e ∈ es, e.2.DistinctKeys := by
  induction es with
  | nil => simp [DistinctKeysEntries]
  | cons e es ih =>
      rcases e with ⟨k, x⟩
      rw [DistinctKeysEntries, ih, List.forall_mem_cons]

theorem depthItems_le_iff {xs : List Value} {n : Nat} :
    depthItems xs ≤ n ↔ ∀ x ∈ xs, x.depth ≤ n := by
  induction xs with
  | nil => simp [depthItems]
  | cons x xs ih => rw [depthItems, Nat.max_le, ih, List.forall_mem_cons]

theorem depthEntries_le_iff {es : List (String × Value)} {n : Nat} :
    depthEntries es ≤ n ↔ ∀ e ∈ es, e.2.depth ≤ n := by
  induction es with
  | nil => simp [depthEntries]
  | cons e es ih =>
      rcases e with ⟨k, x⟩
      rw [depthEntries, Nat.max_le, ih, List.forall_mem_cons]

end Value

namespace Json.Node

theorem depthItems_le_iff {xs : List Node} {n : Nat} :
    depthItems xs ≤ n ↔ ∀ x ∈ xs, x.depth ≤ n := by
  induction xs with
  | nil => simp [depthItems]
  | cons x xs ih => rw [depthItems, Nat.max_le, ih, List.forall_mem_cons]

theorem depthMembers_le_iff {ms : List (List StringUnit × Node)} {n : Nat} :
    depthMembers ms ≤ n ↔ ∀ m ∈ ms, m.2.depth ≤ n := by
  induction ms with
  | nil => simp [depthMembers]
  | cons m ms ih =>
      rcases m with ⟨k, x⟩
      rw [depthMembers, Nat.max_le, ih, List.forall_mem_cons]

end Json.Node

namespace Value

/-! ## Items and members -/

/-- A member denotes a key, and a value as the given relation has it. -/
inductive MemberDenotes (R : Json.Node → Value → Prop) :
    List Json.StringUnit × Json.Node → String × Value → Prop
  | mk {us : List Json.StringUnit} {key : String} {x : Json.Node} {v : Value} :
      Json.text? us = some key → R x v → MemberDenotes R (us, x) (key, v)

/-- Items are read one by one. -/
theorem itemsOf?_eq_some_iff {R : Json.Node → Value → Prop} {items : List Json.Node}
    (hR : ∀ x ∈ items, ∀ v, R x v ↔ ofNode? x = some v) {vs : List Value} :
    itemsOf? items = some vs ↔ List.Forall₂ R items vs := by
  induction items generalizing vs with
  | nil => simp [itemsOf?, eq_comm]
  | cons x xs ih =>
      have hx := hR x List.mem_cons_self
      have hxs := @ih fun y hy => hR y (List.mem_cons_of_mem x hy)
      rw [itemsOf?, List.forall₂_cons_left_iff]
      constructor
      · intro h
        split at h
        · next v ws hv hws =>
          obtain rfl := Option.some.inj h
          exact ⟨v, ws, (hx v).2 hv, hxs.1 hws, rfl⟩
        · simp at h
      · rintro ⟨v, ws, hv, hws, rfl⟩
        rw [(hx v).1 hv, hxs.2 hws]

/-- Members are read one by one. -/
theorem pairsOf?_eq_some_iff {R : Json.Node → Value → Prop}
    {members : List (List Json.StringUnit × Json.Node)}
    (hR : ∀ m ∈ members, ∀ v, R m.2 v ↔ ofNode? m.2 = some v) {ps : List (String × Value)} :
    pairsOf? members = some ps ↔ List.Forall₂ (MemberDenotes R) members ps := by
  induction members generalizing ps with
  | nil => simp [pairsOf?, eq_comm]
  | cons m ms ih =>
      rcases m with ⟨us, x⟩
      have hx := hR (us, x) List.mem_cons_self
      have hms := @ih fun y hy => hR y (List.mem_cons_of_mem _ hy)
      rw [pairsOf?, List.forall₂_cons_left_iff]
      constructor
      · intro h
        split at h
        · next key v qs hkey hv hqs =>
          obtain rfl := Option.some.inj h
          exact ⟨(key, v), qs, .mk hkey ((hx v).2 hv), hms.1 hqs, rfl⟩
        · simp at h
      · rintro ⟨_, qs, ⟨hkey, hv⟩, hqs, rfl⟩
        rw [hkey, (hx _).1 hv, hms.2 hqs]

/-- Whatever is paired with a list item by item comes from one of its items. -/
theorem exists_mem_of_forall₂ {α β : Type} {R : α → β → Prop} {xs : List α} {ys : List β}
    (h : List.Forall₂ R xs ys) : ∀ y ∈ ys, ∃ x ∈ xs, R x y := by
  induction h with
  | nil => simp
  | @cons x z xs ys hxz _ ih =>
      intro y hy
      rcases List.mem_cons.1 hy with rfl | hy
      · exact ⟨x, List.mem_cons_self, hxz⟩
      · rcases ih y hy with ⟨w, hw, hwy⟩
        exact ⟨w, List.mem_cons_of_mem x hw, hwy⟩

/-! ## Writing -/

theorem nodesOf_eq_map (xs : List Value) : nodesOf xs = xs.map toNode := by
  induction xs with
  | nil => rfl
  | cons x xs ih => rw [nodesOf, ih, List.map_cons]

theorem membersOf_eq_map (es : List (String × Value)) :
    membersOf es = es.map fun e => (Json.unitsOf e.1, e.2.toNode) := by
  induction es with
  | nil => rfl
  | cons e es ih =>
      rcases e with ⟨k, x⟩
      rw [membersOf, ih, List.map_cons]

theorem depth_toNode (v : Value) : v.toNode.depth = v.depth := by
  induction v using Value.induct with
  | text s => rfl
  | bool b => rfl
  | list items ih =>
      have hitems : Json.Node.depthItems (nodesOf items) = depthItems items := by
        induction items with
        | nil => rfl
        | cons x xs ihxs =>
            rw [nodesOf, Json.Node.depthItems, depthItems, ih x (by simp),
              ihxs fun y hy => ih y (by simp [hy])]
      rw [toNode, Json.Node.depth, hitems, depth]
  | mapping entries ih =>
      have hentries : Json.Node.depthMembers (membersOf entries) = depthEntries entries := by
        induction entries with
        | nil => rfl
        | cons e es ihes =>
            rcases e with ⟨k, x⟩
            rw [membersOf, Json.Node.depthMembers, depthEntries, ih (k, x) (by simp),
              ihes fun y hy => ih y (by simp [hy])]
      rw [toNode, Json.Node.depth, hentries, depth]

/-- Lists are taken to the same list by a function that keeps their members apart only when they
are the same. -/
theorem eq_of_map_eq_map {α β : Type} {f : α → β} {xs ys : List α}
    (hf : ∀ x ∈ xs, ∀ y ∈ ys, f x = f y → x = y) (h : xs.map f = ys.map f) : xs = ys := by
  induction xs generalizing ys with
  | nil => exact (List.map_eq_nil_iff.1 h.symm).symm
  | cons x xs ih =>
      cases ys with
      | nil => simp at h
      | cons y ys =>
          rw [List.map_cons, List.map_cons, List.cons.injEq] at h
          have hhead : x = y := hf x List.mem_cons_self y List.mem_cons_self h.1
          have htail : xs = ys := ih (fun a ha b hb =>
            hf a (List.mem_cons_of_mem x ha) b (List.mem_cons_of_mem y hb)) h.2
          rw [hhead, htail]

/-- Two values never share a document, repeated keys or not. -/
theorem toNode_injective : Function.Injective toNode := by
  intro v
  induction v using Value.induct with
  | text s =>
      intro w h
      cases w with
      | text t => rw [Json.Node.ofString_injective h]
      | bool b => cases h
      | list items => cases h
      | mapping entries => cases h
  | bool b =>
      intro w h
      cases w with
      | bool c => rw [Json.Node.bool.inj h]
      | text t => cases h
      | list items => cases h
      | mapping entries => cases h
  | list items ih =>
      intro w h
      cases w with
      | list items' =>
          rw [toNode, toNode, nodesOf_eq_map, nodesOf_eq_map, Json.Node.array.injEq] at h
          rw [eq_of_map_eq_map (fun x hx y _ hxy => ih x hx hxy) h]
      | text t => cases h
      | bool b => cases h
      | mapping entries => cases h
  | mapping entries ih =>
      intro w h
      cases w with
      | mapping entries' =>
          rw [toNode, toNode, membersOf_eq_map, membersOf_eq_map, Json.Node.object.injEq] at h
          have hentry : ∀ e ∈ entries, ∀ e' ∈ entries',
              (Json.unitsOf e.1, e.2.toNode) = (Json.unitsOf e'.1, e'.2.toNode) → e = e' := by
            intro e he e' _ hmember
            obtain ⟨hkey, hvalue⟩ := Prod.mk.inj hmember
            exact Prod.ext (Json.unitsOf_injective hkey) (ih e he hvalue)
          rw [eq_of_map_eq_map hentry h]
      | text t => cases h
      | bool b => cases h
      | list items => cases h

/-- The document of a value with distinct keys denotes the value. -/
theorem ofNode?_toNode {v : Value} (h : v.DistinctKeys) : ofNode? v.toNode = some v := by
  induction v using Value.induct with
  | text s => simp [toNode, Json.Node.ofString, ofNode?]
  | bool b => rfl
  | list items ih =>
      have hkeys := distinctKeysItems_iff.1 h
      have hitems : itemsOf? (nodesOf items) = some items := by
        rw [nodesOf_eq_map, itemsOf?_eq_some_iff fun _ _ _ => Iff.rfl, List.forall₂_map_left_iff,
          List.forall₂_same]
        intro x hx
        exact ih x hx (hkeys x hx)
      rw [toNode, ofNode?, hitems, Option.map_some]
  | mapping entries ih =>
      have hkeys := distinctKeysEntries_iff.1 h.2
      have hpairs : pairsOf? (membersOf entries) = some entries := by
        rw [membersOf_eq_map,
          pairsOf?_eq_some_iff (R := fun x v => ofNode? x = some v) fun _ _ _ => Iff.rfl,
          List.forall₂_map_left_iff, List.forall₂_same]
        intro e he
        exact .mk (Json.text?_unitsOf e.1) (ih e he (hkeys e he))
      -- no key is repeated, so all entries stay where they are
      rw [toNode, ofNode?, hpairs, Option.map_some, Bindings.ofPairs_of_nodup h.1]

/-! ## Reading -/

/-- Each value that is read from an array comes from one of its items. -/
theorem mem_of_itemsOf? {xs : List Json.Node} {vs : List Value} (h : itemsOf? xs = some vs) :
    ∀ v ∈ vs, ∃ x ∈ xs, ofNode? x = some v :=
  exists_mem_of_forall₂ ((itemsOf?_eq_some_iff fun _ _ _ => Iff.rfl).1 h)

/-- The value of each entry that is read from an object comes from one of its members. -/
theorem mem_of_pairsOf? {ms : List (List Json.StringUnit × Json.Node)} {ps : List (String × Value)}
    (h : pairsOf? ms = some ps) : ∀ p ∈ ps, ∃ m ∈ ms, ofNode? m.2 = some p.2 := by
  intro p hp
  rw [pairsOf?_eq_some_iff (R := fun x v => ofNode? x = some v) fun _ _ _ => Iff.rfl] at h
  obtain ⟨m, hm, hmp⟩ := exists_mem_of_forall₂ h p hp
  cases hmp with
  | mk _ hv => exact ⟨_, hm, hv⟩

/-- An entry of a mapping that is read comes from a member. -/
theorem mem_of_ofPairs {ms : List (List Json.StringUnit × Json.Node)} {ps : List (String × Value)}
    (h : pairsOf? ms = some ps) : ∀ e ∈ Bindings.ofPairs ps, ∃ m ∈ ms, ofNode? m.2 = some e.2 := by
  intro e he
  rw [Bindings.ofPairs_eq_insertAll] at he
  rcases Bindings.mem_of_mem_insertAll he with he | he
  · exact mem_of_pairsOf? h e he
  · exact absurd he List.not_mem_nil

/-- What is read has no key twice: a repeated key takes the place of the first one. -/
theorem distinctKeys_of_ofNode? {node : Json.Node} {v : Value} (h : ofNode? node = some v) :
    v.DistinctKeys := by
  induction node using Json.Node.induct generalizing v with
  | null =>
      obtain rfl := Option.some.inj h
      trivial
  | bool b =>
      obtain rfl := Option.some.inj h
      trivial
  | number n =>
      rw [ofNode?, Option.map_eq_some_iff] at h
      obtain ⟨s, -, rfl⟩ := h
      trivial
  | string us =>
      rw [ofNode?, Option.map_eq_some_iff] at h
      obtain ⟨s, -, rfl⟩ := h
      trivial
  | array items ih =>
      rw [ofNode?, Option.map_eq_some_iff] at h
      obtain ⟨vs, hvs, rfl⟩ := h
      rw [DistinctKeys, distinctKeysItems_iff]
      intro w hw
      rcases mem_of_itemsOf? hvs w hw with ⟨x, hx, hread⟩
      exact ih x hx hread
  | object members ih =>
      rw [ofNode?, Option.map_eq_some_iff] at h
      obtain ⟨ps, hps, rfl⟩ := h
      rw [DistinctKeys, distinctKeysEntries_iff]
      refine ⟨Bindings.nodup_keys_insertAll ps List.nodup_nil, ?_⟩
      intro e he
      rcases mem_of_ofPairs hps e he with ⟨m, hm, hread⟩
      exact ih m hm hread

/-- What is read is no deeper than its document. -/
theorem depth_le_of_ofNode? {node : Json.Node} {v : Value} (h : ofNode? node = some v) :
    v.depth ≤ node.depth := by
  induction node using Json.Node.induct generalizing v with
  | null =>
      obtain rfl := Option.some.inj h
      exact Nat.zero_le _
  | bool b =>
      obtain rfl := Option.some.inj h
      exact Nat.zero_le _
  | number n =>
      rw [ofNode?, Option.map_eq_some_iff] at h
      obtain ⟨s, -, rfl⟩ := h
      exact Nat.zero_le _
  | string us =>
      rw [ofNode?, Option.map_eq_some_iff] at h
      obtain ⟨s, -, rfl⟩ := h
      exact Nat.zero_le _
  | array items ih =>
      rw [ofNode?, Option.map_eq_some_iff] at h
      obtain ⟨vs, hvs, rfl⟩ := h
      rw [depth, Json.Node.depth, Nat.add_le_add_iff_right, depthItems_le_iff]
      intro w hw
      rcases mem_of_itemsOf? hvs w hw with ⟨x, hx, hread⟩
      exact Nat.le_trans (ih x hx hread) (Json.Node.depthItems_le_iff.1 (Nat.le_refl _) x hx)
  | object members ih =>
      rw [ofNode?, Option.map_eq_some_iff] at h
      obtain ⟨ps, hps, rfl⟩ := h
      rw [depth, Json.Node.depth, Nat.add_le_add_iff_right, depthEntries_le_iff]
      intro e he
      rcases mem_of_ofPairs hps e he with ⟨m, hm, hread⟩
      exact Nat.le_trans (ih m hm hread) (Json.Node.depthMembers_le_iff.1 (Nat.le_refl _) m hm)

/-! ## Round trip -/

/-- A text is read when its document is not too deep and denotes a value. -/
theorem ofJson?_eq_some_iff {text : String} {v : Value} :
    ofJson? text = some v ↔
      ∃ node, Json.Node.read? text = some node ∧ node.depth ≤ maxDepth ∧ ofNode? node = some v := by
  rw [ofJson?]
  cases Json.Node.read? text with
  | none => simp
  | some node => simp

/-- A written value is read back exactly when it is not too deep. -/
theorem ofJson?_toJson {v : Value} (h : v.DistinctKeys) :
    ofJson? v.toJson = if v.depth ≤ maxDepth then some v else none := by
  rw [ofJson?, toJson, Json.Node.read?_compact]
  simp only [depth_toNode, ofNode?_toNode h]

/-- A printed document is read back as the value that it is written for. -/
theorem ofJson?_compact_of_toNode_eq {v : Value} {node : Json.Node} (hnode : v.toNode = node)
    (hkeys : v.DistinctKeys) (hdepth : v.depth ≤ maxDepth) : ofJson? node.compact = some v := by
  have hread := ofJson?_toJson hkeys
  rw [if_pos hdepth, toJson, hnode] at hread
  exact hread

/-- What is read has distinct keys and is not too deep. -/
theorem invariants_of_ofJson? {text : String} {v : Value} (h : ofJson? text = some v) :
    v.DistinctKeys ∧ v.depth ≤ maxDepth := by
  rcases ofJson?_eq_some_iff.1 h with ⟨node, -, hdepth, hread⟩
  exact ⟨distinctKeys_of_ofNode? hread, Nat.le_trans (depth_le_of_ofNode? hread) hdepth⟩

/-- Values survive being written and read, up to a depth of 127. A value with distinct keys is read
back as it is, with all mappings in their order, when at most 127 of its lists and mappings lie
inside one another, and is refused otherwise. Every value that is read from any text has distinct
keys and is within the bound, so it is read back from what is written for it. -/
theorem value_json_round_trip :
    (∀ v : Value, v.DistinctKeys → v.depth ≤ 127 → ofJson? v.toJson = some v) ∧
    (∀ v : Value, v.DistinctKeys → 128 ≤ v.depth → ofJson? v.toJson = none) ∧
    (∀ (text : String) (v : Value), ofJson? text = some v →
      v.DistinctKeys ∧ v.depth ≤ 127 ∧ ofJson? v.toJson = some v) := by
  refine ⟨?_, ?_, ?_⟩
  · intro v hkeys hdepth
    rw [ofJson?_toJson hkeys]
    exact if_pos hdepth
  · intro v hkeys hdepth
    have hdeep : ¬ v.depth ≤ maxDepth := by
      rw [maxDepth]
      omega
    rw [ofJson?_toJson hkeys, if_neg hdeep]
  · intro text v hread
    obtain ⟨hkeys, hdepth⟩ := invariants_of_ofJson? hread
    refine ⟨hkeys, hdepth, ?_⟩
    rw [ofJson?_toJson hkeys]
    exact if_pos hdepth

/-- So many lists inside one another. -/
def nested : Nat → Value
  | 0 => .empty
  | n + 1 => .list [nested n]

theorem depth_nested (n : Nat) : (nested n).depth = n := by
  induction n with
  | zero => rfl
  | succ n ih => simp [nested, depth, depthItems, ih]

theorem distinctKeys_nested (n : Nat) : (nested n).DistinctKeys := by
  induction n with
  | zero => trivial
  | succ n ih => exact ⟨ih, trivial⟩

/-- The two sides of the bound. -/
theorem value_json_round_trip_at_bound :
    (nested 127).depth ≤ 127 ∧ ofJson? (nested 127).toJson = some (nested 127) ∧
    128 ≤ (nested 128).depth ∧ ofJson? (nested 128).toJson = none := by
  have hlow : (nested 127).depth ≤ 127 := Nat.le_of_eq (depth_nested 127)
  have hhigh : 128 ≤ (nested 128).depth := Nat.le_of_eq (depth_nested 128).symm
  exact ⟨hlow, value_json_round_trip.1 (nested 127) (distinctKeys_nested 127) hlow,
    hhigh, value_json_round_trip.2.1 (nested 128) (distinctKeys_nested 128) hhigh⟩

end Value

end CueScript
