import Mathlib.Data.List.Perm.Subperm
import CueScript.Environment
import CueScript.Proofs.Value.Sorted

/-!
# CueScript.Proofs.Value.Canonical — printed documents are canonical forms of values

Scripts compare values without regard to the order of entries; the evaluator prints them with the
keys of all objects in order. Both come down to equality of sorted values.

1. **Order**: entries with distinct keys have one order only, so sorted mappings are equal when the
   same is found in them.
2. **Sameness**: mappings are the same when they agree key by key, and values are the same when they
   are equal once they are sorted.
3. **Printing**: a printed document shows the sorted value.
4. **Canonical form**: values are the same exactly when they are printed alike.
-/

namespace CueScript

/-! ## Order -/

namespace Json.Node

/-- Keys that come before one another are the same text. -/
theorem keyLe_antisymm {s t : List Char} (hst : keyLe (s.map .char) (t.map .char) = true)
    (hts : keyLe (t.map .char) (s.map .char) = true) : s = t := by
  induction s generalizing t with
  | nil =>
      cases t with
      | nil => rfl
      | cons d t => simp [keyLe] at hts
  | cons c s ih =>
      cases t with
      | nil => simp [keyLe] at hst
      | cons d t =>
          rw [List.map_cons, List.map_cons, keyLe_cons] at hst hts
          simp only [StringUnit.code] at hst hts
          -- neither first character comes strictly before the other
          rcases hst with hlt | ⟨heq, hrest⟩
          · rcases hts with hgt | ⟨heq, -⟩
            · omega
            · omega
          · rcases hts with hgt | ⟨-, hrest'⟩
            · omega
            · obtain rfl : c = d := Char.toNat_inj.1 heq
              rw [ih hrest hrest']

end Json.Node

namespace Value

theorem key_eq_of_entryLe {e f : String × Value} (hef : entryLe e f = true)
    (hfe : entryLe f e = true) : e.1 = f.1 :=
  String.toList_inj.1 (Json.Node.keyLe_antisymm hef hfe)

variable {xs ys : List (String × Value)}

/-- Sorted mappings are equal when the same is found under each key, up to what is inside it. -/
theorem sortedEntries_eq_iff (hx : (Bindings.keys xs).Nodup) (hy : (Bindings.keys ys).Nodup) :
    sortedEntries xs = sortedEntries ys ↔
      ∀ k, (Bindings.find? k xs).map sorted = (Bindings.find? k ys).map sorted := by
  constructor
  · intro h k
    rw [← find?_sortedEntries hx, ← find?_sortedEntries hy, h]
  · intro h
    have hx' := (keys_sortedEntries_perm xs).nodup_iff.2 hx
    have hy' := (keys_sortedEntries_perm ys).nodup_iff.2 hy
    have hfind : ∀ k,
        Bindings.find? k (sortedEntries xs) = Bindings.find? k (sortedEntries ys) := by
      intro k
      rw [find?_sortedEntries hx, find?_sortedEntries hy, h k]
    have hxs := List.pairwise_mergeSort entryLe_trans entryLe_total (sortedInside xs)
    have hys := List.pairwise_mergeSort entryLe_trans entryLe_total (sortedInside ys)
    -- two sorted lists with the same entries are equal, since no two entries have one key
    refine List.Perm.eq_of_pairwise ?_ hxs hys (Bindings.perm_of_find?_eq hx' hy' hfind)
    rintro ⟨k, x⟩ ⟨l, y⟩ he hf hef hfe
    obtain rfl : k = l := key_eq_of_entryLe hef hfe
    have hfound := (Bindings.mem_iff_find? hx').1 he
    rw [hfind, (Bindings.mem_iff_find? hy').1 hf] at hfound
    rw [Option.some.inj hfound]

/-! ## Sameness -/

/-- The same value, or nothing, on both sides. -/
def Agree (v w : Option Value) : Prop :=
  Option.Rel (fun x y => same x y = true) v w

theorem Agree.isSome_eq {v w : Option Value} (h : Agree v w) : v.isSome = w.isSome := by
  cases h with
  | some hsame => rfl
  | none => rfl

theorem agree_some_iff {x : Value} {w : Option Value} :
    Agree (some x) w ↔ ∃ y, w = some y ∧ same x y = true := by
  cases w with
  | none => simp [Agree]
  | some y => simp [Agree]

/-- Mappings are the same when they agree key by key. -/
theorem same_mapping_iff (hx : (Bindings.keys xs).Nodup) (hy : (Bindings.keys ys).Nodup) :
    same (.mapping xs) (.mapping ys) = true ↔
      ∀ k, Agree (Bindings.find? k xs) (Bindings.find? k ys) := by
  rw [same, Bool.and_eq_true, beq_iff_eq, sameEntries_iff]
  constructor
  · rintro ⟨hlength, hentries⟩ k
    have hsub : Bindings.keys xs ⊆ Bindings.keys ys := by
      intro k hk
      obtain ⟨e, he, rfl⟩ := List.mem_map.1 hk
      rcases hentries e he with ⟨y, hfind, -⟩
      rw [← Bindings.find?_isSome_iff, hfind]
      rfl
    -- as many keys on both sides, so there is no further one on the right
    have hperm : (Bindings.keys xs).Perm (Bindings.keys ys) := by
      apply (List.subperm_of_subset hx hsub).perm_of_length_le
      simp [Bindings.keys, hlength]
    cases hfind : Bindings.find? k xs with
    | some x =>
        rcases hentries (k, x) (Bindings.mem_of_find? hfind) with ⟨y, hfind', hsame⟩
        rw [hfind']
        exact .some hsame
    | none =>
        have hnone : Bindings.find? k ys = none := by
          rw [← Option.not_isSome_iff_eq_none, Bindings.find?_isSome_iff, ← hperm.mem_iff,
            ← Bindings.find?_isSome_iff, hfind]
          decide
        rw [hnone]
        exact .none
  · intro h
    have hkeys : ∀ k, k ∈ Bindings.keys xs ↔ k ∈ Bindings.keys ys := by
      intro k
      rw [← Bindings.find?_isSome_iff, ← Bindings.find?_isSome_iff, (h k).isSome_eq]
    have hperm := (List.perm_ext_iff_of_nodup hx hy).2 hkeys
    refine ⟨by simpa [Bindings.keys] using hperm.length_eq, ?_⟩
    intro e he
    have hagree := h e.1
    rw [Bindings.find?_of_mem hx he] at hagree
    exact agree_some_iff.1 hagree

theorem sameItems_iff {xs ys : List Value}
    (h : ∀ x ∈ xs, ∀ y ∈ ys, (same x y = true ↔ x.sorted = y.sorted)) :
    sameItems xs ys = true ↔ sortedItems xs = sortedItems ys := by
  induction xs generalizing ys with
  | nil =>
      cases ys with
      | nil => simp [sameItems, sortedItems]
      | cons y ys => simp [sameItems, sortedItems]
  | cons x xs ih =>
      cases ys with
      | nil => simp [sameItems, sortedItems]
      | cons y ys =>
          have hrest : sameItems xs ys = true ↔ sortedItems xs = sortedItems ys :=
            ih fun x' hx' y' hy' => h x' (by simp [hx']) y' (by simp [hy'])
          rw [sameItems, sortedItems, sortedItems, Bool.and_eq_true, List.cons.injEq, hrest,
            h x (by simp) y (by simp)]

theorem agree_iff {v w : Option Value}
    (h : ∀ x ∈ v, ∀ y ∈ w, (same x y = true ↔ x.sorted = y.sorted)) :
    Agree v w ↔ v.map sorted = w.map sorted := by
  cases v with
  | none =>
      cases w with
      | none => simp [Agree]
      | some y => simp [Agree]
  | some x =>
      cases w with
      | none => simp [Agree]
      | some y => simp [Agree, h x rfl y rfl]

/-- Values are the same when nothing but the order of entries tells them apart. -/
theorem same_iff_sorted_eq {v w : Value} (hv : v.DistinctKeys) (hw : w.DistinctKeys) :
    same v w = true ↔ v.sorted = w.sorted := by
  induction v using Value.induct generalizing w with
  | text s => cases w <;> simp [same, sorted]
  | bool b => cases w <;> simp [same, sorted]
  | list items ih =>
      cases w with
      | list items' =>
          rw [DistinctKeys, distinctKeysItems_iff] at hv hw
          rw [same, sorted, sorted, Value.list.injEq]
          exact sameItems_iff fun x hx y hy => ih x hx (hv x hx) (hw y hy)
      | text s => simp [same, sorted]
      | bool b => simp [same, sorted]
      | mapping entries => simp [same, sorted]
  | mapping entries ih =>
      cases w with
      | mapping entries' =>
          rw [DistinctKeys, distinctKeysEntries_iff] at hv hw
          rw [same_mapping_iff hv.1 hw.1, sorted_mapping, sorted_mapping, Value.mapping.injEq,
            sortedEntries_eq_iff hv.1 hw.1]
          apply forall_congr'
          intro k
          apply agree_iff
          intro x hx y hy
          have hx' := Bindings.mem_of_find? hx
          have hy' := Bindings.mem_of_find? hy
          exact ih (k, x) hx' (hv.2 (k, x) hx') (hw.2 (k, y) hy')
      | text s => simp [same, sorted]
      | bool b => simp [same, sorted]
      | list items => simp [same, sorted]

end Value

/-! ## Printing -/

theorem Json.Node.prettySorted_eq_iff {x y : Json.Node} :
    x.prettySorted = y.prettySorted ↔ x.sortKeys = y.sortKeys := by
  constructor
  · intro h
    -- what is printed can be read, and shows the document in order
    have hread := read?_prettySorted x
    rw [h, read?_prettySorted y] at hread
    exact (Option.some.inj hread).symm
  · intro h
    rw [prettySorted, prettySorted, h]

namespace Value

theorem same_iff_prettySorted_eq {v w : Value} (hv : v.DistinctKeys) (hw : w.DistinctKeys) :
    same v w = true ↔ v.toNode.prettySorted = w.toNode.prettySorted := by
  rw [same_iff_sorted_eq hv hw, Json.Node.prettySorted_eq_iff, ← toNode_sorted, ← toNode_sorted,
    toNode_injective.eq_iff]

theorem same_refl {v : Value} (h : v.DistinctKeys) : same v v = true :=
  (same_iff_sorted_eq h h).2 rfl

/-- Sameness is equality of sorted values, so it is an equivalence. -/
theorem equivalence_same :
    Equivalence fun v w : {v : Value // v.DistinctKeys} => same v.1 w.1 = true := by
  constructor
  · intro v
    exact same_refl v.2
  · intro v w h
    rw [same_iff_sorted_eq w.2 v.2]
    exact ((same_iff_sorted_eq v.2 w.2).1 h).symm
  · intro u v w huv hvw
    rw [same_iff_sorted_eq u.2 w.2]
    exact ((same_iff_sorted_eq u.2 v.2).1 huv).trans ((same_iff_sorted_eq v.2 w.2).1 hvw)

end Value

namespace Environment

variable {env env' : Environment}

/-- No name is bound twice, and no mapping inside a value has a key twice. -/
def DistinctKeys (env : Environment) : Prop :=
  (Value.mapping env.bindings).DistinctKeys

theorem same_iff_agree (h : env.DistinctKeys) (h' : env'.DistinctKeys) :
    env.same env' = true ↔ ∀ name, Value.Agree (env.get? name) (env'.get? name) :=
  Value.same_mapping_iff h.1 h'.1

theorem same_iff_prettySorted_eq (h : env.DistinctKeys) (h' : env'.DistinctKeys) :
    env.same env' = true ↔ env.toNode.prettySorted = env'.toNode.prettySorted :=
  Value.same_iff_prettySorted_eq h h'

variable {ps : List (String × Value)}

theorem distinctKeys_empty : empty.DistinctKeys :=
  ⟨List.nodup_nil, trivial⟩

theorem DistinctKeys.get? {name : String} {v : Value} (h : env.DistinctKeys)
    (hget : env.get? name = some v) : v.DistinctKeys :=
  Value.distinctKeysEntries_iff.1 h.2 (name, v) (Bindings.mem_of_find? hget)

/-- Keys stay distinct when values with distinct keys are bound. -/
theorem DistinctKeys.insertAll (h : env.DistinctKeys) (hps : ∀ p ∈ ps, p.2.DistinctKeys) :
    DistinctKeys ⟨Bindings.insertAll ps env.bindings⟩ := by
  refine ⟨Bindings.nodup_keys_insertAll ps h.1, ?_⟩
  rw [Value.distinctKeysEntries_iff]
  intro e he
  rcases Bindings.mem_of_mem_insertAll he with he | he
  · exact hps e he
  · exact Value.distinctKeysEntries_iff.1 h.2 e he

theorem distinctKeys_ofPairs (h : ∀ p ∈ ps, p.2.DistinctKeys) : (ofPairs ps).DistinctKeys :=
  distinctKeys_empty.insertAll h

/-- Environments in which all names have the same values are the same. -/
theorem same_of_get?_eq (h : env.DistinctKeys) (h' : env'.DistinctKeys)
    (hget : ∀ name, env.get? name = env'.get? name) : env.same env' = true := by
  rw [same_iff_agree h h']
  intro name
  rw [hget]
  cases hvalue : env'.get? name with
  | none => exact .none
  | some v => exact .some (Value.same_refl (h'.get? hvalue))

/-- A name has the value that was bound last. -/
theorem get?_ofPairs (ps : List (String × Value)) (name : String) :
    (ofPairs ps).get? name = Bindings.find? name ps.reverse := by
  have hfind := Bindings.find?_insertAll name ps []
  rw [Bindings.find?, Option.or_none] at hfind
  exact hfind

end Environment

/-! ## Canonical form -/

namespace Value

/-- The printed document is a canonical form: values are the same exactly when they are printed
alike, so different values never are. What is printed for a value is the indented document of the
same value with the keys of every object in the order of their bytes. Sameness is therefore an
equivalence. It holds of environments when they agree name by name, so that two histories of
bindings print the same text exactly when the last values of every name are the same. -/
theorem printed_value_canonical :
    (∀ v w : Value, v.DistinctKeys → w.DistinctKeys →
      (same v w = true ↔ v.toNode.prettySorted = w.toNode.prettySorted)) ∧
    (∀ v : Value, v.DistinctKeys → ∃ u : Value, u.KeysInOrder ∧ same u v = true ∧
      v.toNode.prettySorted = String.ofList (u.toNode.write .pretty 0)) ∧
    (Equivalence fun v w : {v : Value // v.DistinctKeys} => same v.1 w.1 = true) ∧
    (∀ env env' : Environment, env.DistinctKeys → env'.DistinctKeys →
      (env.same env' = true ↔ ∀ name, Agree (env.get? name) (env'.get? name)) ∧
      (env.same env' = true ↔ env.toNode.prettySorted = env'.toNode.prettySorted)) ∧
    (∀ ps ps' : List (String × Value), (∀ p ∈ ps, p.2.DistinctKeys) →
      (∀ p ∈ ps', p.2.DistinctKeys) →
      ((Environment.ofPairs ps).toNode.prettySorted
          = (Environment.ofPairs ps').toNode.prettySorted ↔
        ∀ name, Agree (Bindings.find? name ps.reverse) (Bindings.find? name ps'.reverse))) := by
  refine ⟨?_, ?_, equivalence_same, ?_, ?_⟩
  · intro v w hv hw
    exact same_iff_prettySorted_eq hv hw
  · intro v hv
    refine ⟨v.sorted, keysInOrder_sorted hv, same_sorted hv, ?_⟩
    rw [toNode_sorted]
    rfl
  · intro env env' h h'
    exact ⟨Environment.same_iff_agree h h', Environment.same_iff_prettySorted_eq h h'⟩
  · intro ps ps' hps hps'
    have h := Environment.distinctKeys_ofPairs hps
    have h' := Environment.distinctKeys_ofPairs hps'
    rw [← Environment.same_iff_prettySorted_eq h h', Environment.same_iff_agree h h']
    simp only [Environment.get?_ofPairs]

/-- Entries in another order print the same text, at every level; a text that looks like a truth
value does not print like one; a value that was bound over leaves no trace. -/
theorem printed_value_canonical_of_reordered :
    Json.Node.prettySorted
        (toNode (.mapping
          [("b", .list [.mapping [("y", .text "1"), ("x", .text "")]]), ("a", .empty)]))
      = Json.Node.prettySorted
        (toNode (.mapping
          [("a", .empty), ("b", .list [.mapping [("x", .text ""), ("y", .text "1")]])])) ∧
    (toNode (.text "true")).prettySorted ≠ (toNode (.bool true)).prettySorted ∧
    (Environment.ofPairs
        [("x", .text "1"), ("y", .bool true), ("x", .bool false)]).toNode.prettySorted
      = (Environment.ofPairs [("y", .bool true), ("x", .bool false)]).toNode.prettySorted := by
  refine ⟨?_, ?_, ?_⟩
  · refine (printed_value_canonical.1 _ _ ?_ ?_).1 rfl
    · simp [DistinctKeys, DistinctKeysEntries, DistinctKeysItems, Bindings.keys, empty]
    · simp [DistinctKeys, DistinctKeysEntries, DistinctKeysItems, Bindings.keys, empty]
  · intro h
    have hsame := (printed_value_canonical.1 (.text "true") (.bool true) trivial trivial).2 h
    simp [same] at hsame
  · refine (printed_value_canonical.2.2.2.2 _ _ ?_ ?_).2 ?_
    · simp [DistinctKeys]
    · simp [DistinctKeys]
    · intro name
      simp only [List.reverse_cons, List.reverse_nil, List.nil_append, List.cons_append,
        Bindings.find?]
      by_cases hx : "x" = name
      · simp [hx, Agree, same]
      · by_cases hy : "y" = name
        · simp [hx, hy, Agree, same]
        · simp [hx, hy, Agree]

end Value

end CueScript
