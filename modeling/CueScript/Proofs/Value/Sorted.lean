import CueScript.Proofs.Text.Utf8
import CueScript.Proofs.Value.Json

/-!
# CueScript.Proofs.Value.Sorted — sorting the keys of a value changes nothing but their order

1. **Keys**: keys are compared by their code points, which is the order of their bytes.
2. **Sorting**: `sorted` puts the entries of every mapping in that order. Its document is the
   document of the value with sorted members.
3. **Invariants**: a sorted value is no deeper than before. Distinct keys stay distinct; then they
   increase, and the value is the same to a script.
4. **Round trip**: a printed value is read back sorted.
-/

namespace CueScript

/-! ## Keys -/

namespace Json.Node

theorem keyLe_cons {a b : StringUnit} {as bs : List StringUnit} :
    keyLe (a :: as) (b :: bs) = true ↔
      a.code < b.code ∨ a.code = b.code ∧ keyLe as bs = true := by
  simp [keyLe]

theorem keyLe_trans {as bs cs : List StringUnit} (hab : keyLe as bs = true)
    (hbc : keyLe bs cs = true) : keyLe as cs = true := by
  induction as generalizing bs cs with
  | nil => rfl
  | cons a as ih =>
      cases bs with
      | nil => simp [keyLe] at hab
      | cons b bs =>
          cases cs with
          | nil => simp [keyLe] at hbc
          | cons c cs =>
              rw [keyLe_cons] at hab hbc ⊢
              -- the first units decide, unless they are the same in all three keys
              rcases hab with hab | ⟨hab, hrest⟩
              · left
                rcases hbc with hbc | ⟨hbc, -⟩
                · omega
                · omega
              · rcases hbc with hbc | ⟨hbc, hrest'⟩
                · left
                  omega
                · exact .inr ⟨hab.trans hbc, ih hrest hrest'⟩

/-- Of two keys one comes first. -/
theorem keyLe_total (as bs : List StringUnit) : (keyLe as bs || keyLe bs as) = true := by
  rw [Bool.or_eq_true]
  induction as generalizing bs with
  | nil => exact .inl rfl
  | cons a as ih =>
      cases bs with
      | nil => exact .inr rfl
      | cons b bs =>
          rw [keyLe_cons, keyLe_cons]
          rcases Nat.lt_trichotomy a.code b.code with hlt | heq | hgt
          · exact .inl (.inl hlt)
          · rcases ih bs with h | h
            · exact .inl (.inr ⟨heq, h⟩)
            · exact .inr (.inr ⟨heq.symm, h⟩)
          · exact .inr (.inl hgt)

theorem keyLe_refl (as : List StringUnit) : keyLe as as = true := by
  have h := keyLe_total as as
  rw [Bool.or_self] at h
  exact h

theorem lex_of_keyLe {s t : List Char} (h : keyLe (s.map .char) (t.map .char) = true)
    (hne : s ≠ t) : List.Lex (fun c d => c.toNat < d.toNat) s t := by
  induction s generalizing t with
  | nil =>
      cases t with
      | nil => exact absurd rfl hne
      | cons d t => exact .nil
  | cons c s ih =>
      cases t with
      | nil => simp [keyLe] at h
      | cons d t =>
          rw [List.map_cons, List.map_cons, keyLe_cons] at h
          rcases h with hlt | ⟨heq, hrest⟩
          · exact .rel hlt
          · obtain rfl : c = d := Char.toNat_inj.1 heq
            refine .cons (ih hrest ?_)
            rintro rfl
            exact hne rfl

/-- Different keys that are texts are in the order of their bytes. -/
theorem lex_encode_of_keyLe {k l : String} (h : keyLe (unitsOf k) (unitsOf l) = true)
    (hne : k ≠ l) :
    List.Lex (· < ·) (Text.Utf8.encode k.toList) (Text.Utf8.encode l.toList) := by
  apply Text.Utf8.lex_encode
  apply lex_of_keyLe h
  exact fun heq => hne (String.toList_inj.1 heq)

theorem sortItems_eq_map (xs : List Node) : sortItems xs = xs.map sortKeys := by
  induction xs with
  | nil => rfl
  | cons x xs ih => rw [sortItems, ih, List.map_cons]

theorem sortMembers_eq_map (ms : List (List StringUnit × Node)) :
    sortMembers ms = ms.map fun m => (m.1, m.2.sortKeys) := by
  induction ms with
  | nil => rfl
  | cons m ms ih =>
      rcases m with ⟨k, x⟩
      rw [sortMembers, ih, List.map_cons]

end Json.Node

namespace Value

/-! ## Sorting -/

/-- Whether the key of an entry comes before that of another or is the same. -/
def entryLe (a b : String × Value) : Bool :=
  Json.Node.keyLe (Json.unitsOf a.1) (Json.unitsOf b.1)

theorem entryLe_trans (a b c : String × Value) (hab : entryLe a b = true)
    (hbc : entryLe b c = true) : entryLe a c = true :=
  Json.Node.keyLe_trans hab hbc

theorem entryLe_total (a b : String × Value) : (entryLe a b || entryLe b a) = true :=
  Json.Node.keyLe_total _ _

mutual
/-- Sorts the entries of every mapping by their keys. -/
def sorted : Value → Value
  | .list items => .list (sortedItems items)
  | .mapping entries => .mapping ((sortedInside entries).mergeSort entryLe)
  | value => value

def sortedItems : List Value → List Value
  | [] => []
  | x :: xs => sorted x :: sortedItems xs

def sortedInside : List (String × Value) → List (String × Value)
  | [] => []
  | (k, x) :: xs => (k, sorted x) :: sortedInside xs
end

/-- Entries with their keys in order, at every level. -/
def sortedEntries (entries : List (String × Value)) : List (String × Value) :=
  (sortedInside entries).mergeSort entryLe

theorem sorted_mapping (entries : List (String × Value)) :
    sorted (.mapping entries) = .mapping (sortedEntries entries) := rfl

theorem sortedItems_eq_map (xs : List Value) : sortedItems xs = xs.map sorted := by
  induction xs with
  | nil => rfl
  | cons x xs ih => rw [sortedItems, ih, List.map_cons]

theorem sortedInside_eq_map (es : List (String × Value)) :
    sortedInside es = es.map fun e => (e.1, e.2.sorted) := by
  induction es with
  | nil => rfl
  | cons e es ih =>
      rcases e with ⟨k, x⟩
      rw [sortedInside, ih, List.map_cons]

/-- Sorting keeps the entries, apart from what is inside them. -/
theorem sortedEntries_perm (entries : List (String × Value)) :
    (sortedEntries entries).Perm (entries.map fun e => (e.1, e.2.sorted)) := by
  rw [← sortedInside_eq_map]
  exact List.mergeSort_perm (sortedInside entries) entryLe

theorem exists_of_mem_sortedItems {items : List Value} {y : Value} (h : y ∈ sortedItems items) :
    ∃ x ∈ items, x.sorted = y := by
  rw [sortedItems_eq_map] at h
  exact List.mem_map.1 h

theorem exists_of_mem_sortedEntries {entries : List (String × Value)} {f : String × Value}
    (h : f ∈ sortedEntries entries) : ∃ e ∈ entries, (e.1, e.2.sorted) = f :=
  List.mem_map.1 ((sortedEntries_perm entries).mem_iff.1 h)

/-- Sorting puts the keys of a mapping into another order. -/
theorem keys_sortedEntries_perm (entries : List (String × Value)) :
    (Bindings.keys (sortedEntries entries)).Perm (Bindings.keys entries) := by
  have hkeys : (entries.map fun e => (e.1, e.2.sorted)).map Prod.fst = Bindings.keys entries := by
    rw [List.map_map]
    rfl
  rw [← hkeys]
  exact (sortedEntries_perm entries).map Prod.fst

/-- The document of a sorted value is the sorted document of the value. -/
theorem toNode_sorted (v : Value) : v.sorted.toNode = v.toNode.sortKeys := by
  induction v using Value.induct with
  | text s => rfl
  | bool b => rfl
  | list items ih =>
      have hitems : items.map (toNode ∘ sorted) = items.map (Json.Node.sortKeys ∘ toNode) :=
        List.map_congr_left ih
      rw [sorted, toNode, toNode, Json.Node.sortKeys, nodesOf_eq_map, nodesOf_eq_map,
        sortedItems_eq_map, Json.Node.sortItems_eq_map, List.map_map, List.map_map, hitems]
  | mapping entries ih =>
      have hentries : membersOf (sortedInside entries)
          = Json.Node.sortMembers (membersOf entries) := by
        rw [membersOf_eq_map, membersOf_eq_map, sortedInside_eq_map, Json.Node.sortMembers_eq_map,
          List.map_map, List.map_map]
        apply List.map_congr_left
        intro e he
        simp [ih e he]
      -- entries are compared as their members are
      have hsort : membersOf (sortedEntries entries)
          = (membersOf (sortedInside entries)).mergeSort fun a b => Json.Node.keyLe a.1 b.1 := by
        rw [membersOf_eq_map, membersOf_eq_map]
        exact List.map_mergeSort fun a ha b hb => rfl
      rw [sorted_mapping, toNode, toNode, Json.Node.sortKeys, hsort, hentries]

/-! ## Invariants -/

theorem depth_sorted_le (v : Value) : v.sorted.depth ≤ v.depth := by
  induction v using Value.induct with
  | text s => exact Nat.le_refl _
  | bool b => exact Nat.le_refl _
  | list items ih =>
      rw [sorted, depth, depth, Nat.add_le_add_iff_right, depthItems_le_iff]
      intro y hy
      obtain ⟨x, hx, rfl⟩ := exists_of_mem_sortedItems hy
      exact Nat.le_trans (ih x hx) (depthItems_le_iff.1 (Nat.le_refl _) x hx)
  | mapping entries ih =>
      rw [sorted_mapping, depth, depth, Nat.add_le_add_iff_right, depthEntries_le_iff]
      intro f hf
      obtain ⟨e, he, rfl⟩ := exists_of_mem_sortedEntries hf
      exact Nat.le_trans (ih e he) (depthEntries_le_iff.1 (Nat.le_refl _) e he)

theorem distinctKeys_sorted {v : Value} (h : v.DistinctKeys) : v.sorted.DistinctKeys := by
  induction v using Value.induct with
  | text s => exact h
  | bool b => exact h
  | list items ih =>
      rw [sorted, DistinctKeys, distinctKeysItems_iff]
      intro y hy
      obtain ⟨x, hx, rfl⟩ := exists_of_mem_sortedItems hy
      exact ih x hx (distinctKeysItems_iff.1 h x hx)
  | mapping entries ih =>
      rw [DistinctKeys, distinctKeysEntries_iff] at h
      rw [sorted_mapping, DistinctKeys, distinctKeysEntries_iff]
      refine ⟨(keys_sortedEntries_perm entries).nodup_iff.2 h.1, ?_⟩
      intro f hf
      obtain ⟨e, he, rfl⟩ := exists_of_mem_sortedEntries hf
      exact ih e he (h.2 e he)

/-- The keys of every mapping inside the value increase, compared by their bytes. -/
inductive KeysInOrder : Value → Prop where
  | text (s : String) : KeysInOrder (.text s)
  | bool (b : Bool) : KeysInOrder (.bool b)
  | list (items : List Value) (inside : ∀ x ∈ items, KeysInOrder x) : KeysInOrder (.list items)
  | mapping (entries : List (String × Value))
      (order : (Bindings.keys entries).Pairwise fun k l =>
        List.Lex (· < ·) (Text.Utf8.encode k.toList) (Text.Utf8.encode l.toList))
      (inside : ∀ e ∈ entries, KeysInOrder e.2) : KeysInOrder (.mapping entries)

theorem keysInOrder_sorted {v : Value} (h : v.DistinctKeys) : v.sorted.KeysInOrder := by
  induction v using Value.induct with
  | text s => exact .text s
  | bool b => exact .bool b
  | list items ih =>
      have hkeys := distinctKeysItems_iff.1 h
      apply KeysInOrder.list
      intro y hy
      obtain ⟨x, hx, rfl⟩ := exists_of_mem_sortedItems hy
      exact ih x hx (hkeys x hx)
  | mapping entries ih =>
      rw [DistinctKeys, distinctKeysEntries_iff] at h
      have hnodup := (keys_sortedEntries_perm entries).nodup_iff.2 h.1
      have hpairwise :=
        List.pairwise_mergeSort entryLe_trans entryLe_total (sortedInside entries)
      have hordered : (Bindings.keys (sortedEntries entries)).Pairwise
          fun k l => Json.Node.keyLe (Json.unitsOf k) (Json.unitsOf l) = true :=
        List.pairwise_map.2 hpairwise
      apply KeysInOrder.mapping
      · -- no key is there twice, so the order is strict
        exact (hordered.and hnodup).imp fun hkl => Json.Node.lex_encode_of_keyLe hkl.1 hkl.2
      · intro f hf
        obtain ⟨e, he, rfl⟩ := exists_of_mem_sortedEntries hf
        exact ih e he (h.2 e he)

/-- A key of a mapping has its value, sorted. -/
theorem find?_sortedEntries {entries : List (String × Value)} (h : (Bindings.keys entries).Nodup)
    (k : String) :
    Bindings.find? k (sortedEntries entries) = (Bindings.find? k entries).map sorted := by
  have hnodup := (keys_sortedEntries_perm entries).nodup_iff.2 h
  cases hfind : Bindings.find? k entries with
  | some x =>
      apply Bindings.find?_of_mem hnodup
      rw [(sortedEntries_perm entries).mem_iff]
      exact List.mem_map.2 ⟨(k, x), Bindings.mem_of_find? hfind, rfl⟩
  | none =>
      rw [Option.map_none, ← Option.not_isSome_iff_eq_none, Bindings.find?_isSome_iff,
        (keys_sortedEntries_perm entries).mem_iff, ← Bindings.find?_isSome_iff, hfind]
      decide

theorem sameItems_sortedItems {items : List Value}
    (h : ∀ x ∈ items, same x.sorted x = true) : sameItems (sortedItems items) items = true := by
  induction items with
  | nil => rfl
  | cons x xs ih =>
      have hx := h x (by simp)
      have hxs := ih fun y hy => h y (by simp [hy])
      rw [sortedItems, sameItems, hx, hxs]
      rfl

/-- Entries agree with a mapping when each of them does. -/
theorem sameEntries_iff {xs ys : List (String × Value)} :
    sameEntries xs ys = true ↔
      ∀ e ∈ xs, ∃ y, Bindings.find? e.1 ys = some y ∧ same e.2 y = true := by
  induction xs with
  | nil => simp [sameEntries]
  | cons e xs ih =>
      rcases e with ⟨k, x⟩
      rw [sameEntries, Bool.and_eq_true, ih, List.forall_mem_cons]
      cases Bindings.find? k ys with
      | none => simp
      | some y => simp

/-- A sorted value is the same value to a script. -/
theorem same_sorted {v : Value} (h : v.DistinctKeys) : same v.sorted v = true := by
  induction v using Value.induct with
  | text s => simp [sorted, same]
  | bool b => simp [sorted, same]
  | list items ih =>
      have hkeys := distinctKeysItems_iff.1 h
      rw [sorted, same]
      exact sameItems_sortedItems fun x hx => ih x hx (hkeys x hx)
  | mapping entries ih =>
      rw [DistinctKeys, distinctKeysEntries_iff] at h
      have hlength : (sortedEntries entries).length = entries.length := by
        rw [(sortedEntries_perm entries).length_eq, List.length_map]
      rw [sorted_mapping, same, Bool.and_eq_true, hlength, sameEntries_iff]
      refine ⟨by simp, ?_⟩
      intro f hf
      obtain ⟨e, he, rfl⟩ := exists_of_mem_sortedEntries hf
      exact ⟨e.2, Bindings.find?_of_mem h.1 he, ih e he (h.2 e he)⟩

/-! ## Round trip -/

/-- A printed value is read back with its keys in order. -/
theorem ofJson?_prettySorted {v : Value} (hkeys : v.DistinctKeys) (hdepth : v.depth ≤ maxDepth) :
    ofJson? (v.toNode.prettySorted ++ "\n") = some v.sorted := by
  rw [ofJson?_eq_some_iff]
  refine ⟨v.sorted.toNode, ?_, ?_, ofNode?_toNode (distinctKeys_sorted hkeys)⟩
  · rw [Json.Node.read?_prettySorted, toNode_sorted]
  · rw [depth_toNode]
    exact Nat.le_trans (depth_sorted_le v) hdepth

end Value

end CueScript
