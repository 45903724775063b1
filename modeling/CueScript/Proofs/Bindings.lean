import Mathlib.Data.List.Basic
import CueScript.Bindings

/-!
# CueScript.Proofs.Bindings — what a sequence of insertions does to a map

1. **Insertions**: `insertAll` inserts pairs one after the other.
2. **Values**: a key has the last value that was inserted for it, or its old one.
3. **Order**: bound keys keep their places. The other inserted keys follow in the order of their
   first insertion, each of them once; `newKeys` lists them.
4. **Entries**: a map with distinct keys is rebuilt by inserting its entries. Its entries are what
   is found in it, so maps in which the same is found differ in their order only.
5. **Swaps**: insertions that share no key can be exchanged, up to the order of new keys.
6. **Merges**: `FirstOccurrences` and `Merged` say without insertions which keys are added to a map,
   in which order, and which value of a key counts. Both determine their result.
-/

namespace CueScript.Bindings

variable {κ α : Type} [DecidableEq κ]

/-! ## Insertions -/

def insertAll (ps : List (κ × α)) (m : List (κ × α)) : List (κ × α) :=
  ps.foldl (fun m p => insert p.1 p.2 m) m

@[simp] theorem insertAll_nil (m : List (κ × α)) : insertAll [] m = m := rfl

@[simp] theorem insertAll_cons (p : κ × α) (ps m : List (κ × α)) :
    insertAll (p :: ps) m = insertAll ps (insert p.1 p.2 m) := rfl

theorem insertAll_append (ps qs m : List (κ × α)) :
    insertAll (ps ++ qs) m = insertAll qs (insertAll ps m) :=
  List.foldl_append

/-! ## Values -/

theorem find?_eq_none_iff {k : κ} {m : List (κ × α)} : find? k m = none ↔ k ∉ keys m := by
  rw [← find?_isSome_iff, Option.not_isSome_iff_eq_none]

theorem find?_append (k : κ) (m n : List (κ × α)) :
    find? k (m ++ n) = (find? k m).or (find? k n) := by
  induction m with
  | nil => rfl
  | cons p m ih =>
      obtain ⟨l, a⟩ := p
      by_cases hl : l = k
      · simp [find?, hl]
      · simp [find?, hl, ih]

/-- The last insertion of a key counts. -/
theorem find?_insertAll (k : κ) (ps m : List (κ × α)) :
    find? k (insertAll ps m) = (find? k ps.reverse).or (find? k m) := by
  -- any map: the rest is inserted into the one that the first pair leaves
  induction ps generalizing m with
  | nil => rfl
  | cons p ps ih =>
      rw [insertAll_cons, ih, find?_insert, List.reverse_cons, find?_append]
      -- a later insertion of the key hides this one
      cases find? k ps.reverse with
      | some a => rfl
      | none =>
          by_cases hp : p.1 = k
          · simp [find?, hp]
          · simp [find?, hp]

/-- A key that is not inserted keeps its value. -/
theorem find?_insertAll_of_not_mem {k : κ} {ps : List (κ × α)} (h : k ∉ keys ps)
    (m : List (κ × α)) : find? k (insertAll ps m) = find? k m := by
  have hnone : find? k ps.reverse = none := by
    rw [find?_eq_none_iff]
    simpa [keys] using h
  rw [find?_insertAll, hnone, Option.none_or]

/-! ## Order -/

/-- The keys that are new to a map with the given bound keys, in the order of their first
occurrence. -/
def newKeys (bound : List κ) : List κ → List κ
  | [] => []
  | k :: ks => if k ∈ bound then newKeys bound ks else k :: newKeys (bound ++ [k]) ks

/-- Bound keys keep their places; new ones follow. -/
theorem keys_insertAll (ps m : List (κ × α)) :
    keys (insertAll ps m) = keys m ++ newKeys (keys m) (keys ps) := by
  induction ps generalizing m with
  | nil => simp [keys, newKeys]
  | cons p ps ih =>
      have hkeys : keys (p :: ps) = p.1 :: keys ps := rfl
      rw [insertAll_cons, ih, keys_insert, hkeys, newKeys]
      by_cases hp : p.1 ∈ keys m
      · rw [if_pos hp, if_pos hp]
      · rw [if_neg hp, if_neg hp, List.append_assoc, List.singleton_append]

/-- The new keys are the inserted ones that are not bound. -/
theorem mem_newKeys {k : κ} {bound ks : List κ} : k ∈ newKeys bound ks ↔ k ∈ ks ∧ k ∉ bound := by
  induction ks generalizing bound with
  | nil => simp [newKeys]
  | cons l ks ih =>
      rw [newKeys]
      by_cases hl : l ∈ bound
      · rw [if_pos hl, ih, List.mem_cons]
        constructor
        · rintro ⟨hk, hb⟩
          exact ⟨.inr hk, hb⟩
        · rintro ⟨rfl | hk, hb⟩
          · exact absurd hl hb
          · exact ⟨hk, hb⟩
      · rw [if_neg hl, List.mem_cons, ih, List.mem_cons, List.mem_append, List.mem_singleton]
        by_cases hk : k = l
        · simp [hk, hl]
        · simp [hk]

/-- No new key is listed twice. -/
theorem nodup_newKeys (bound ks : List κ) : (newKeys bound ks).Nodup := by
  induction ks generalizing bound with
  | nil => exact List.nodup_nil
  | cons l ks ih =>
      rw [newKeys]
      by_cases hl : l ∈ bound
      · rw [if_pos hl]
        exact ih bound
      · rw [if_neg hl, List.nodup_cons, mem_newKeys]
        refine ⟨?_, ih (bound ++ [l])⟩
        -- behind its first occurrence a key counts as bound
        rintro ⟨-, hnew⟩
        exact hnew (by simp)

/-- New keys stand in the order in which they are inserted. -/
theorem newKeys_sublist (bound ks : List κ) : (newKeys bound ks).Sublist ks := by
  induction ks generalizing bound with
  | nil => exact .slnil
  | cons l ks ih =>
      rw [newKeys]
      by_cases hl : l ∈ bound
      · rw [if_pos hl]
        exact (ih bound).cons l
      · rw [if_neg hl]
        exact (ih (bound ++ [l])).cons_cons l

/-- New keys stand in the order of their first occurrences. -/
theorem newKeys_pairwise (bound ks : List κ) :
    (newKeys bound ks).Pairwise fun k l => ks.idxOf k < ks.idxOf l := by
  induction ks generalizing bound with
  | nil => exact .nil
  | cons j ks ih =>
      -- keys other than `j` stand one place further on behind it
      have hshift : ∀ bound', j ∈ bound' → (newKeys bound' ks).Pairwise
          fun k l => (j :: ks).idxOf k < (j :: ks).idxOf l := by
        intro bound' hj
        refine (ih bound').imp_of_mem ?_
        intro k l hk hl hlt
        have hjk : j ≠ k := fun heq => (mem_newKeys.1 hk).2 (heq ▸ hj)
        have hjl : j ≠ l := fun heq => (mem_newKeys.1 hl).2 (heq ▸ hj)
        rw [List.idxOf_cons_ne ks hjk, List.idxOf_cons_ne ks hjl]
        omega
      rw [newKeys]
      by_cases hj : j ∈ bound
      · rw [if_pos hj]
        exact hshift bound hj
      · rw [if_neg hj, List.pairwise_cons]
        refine ⟨?_, hshift (bound ++ [j]) (by simp)⟩
        intro l hl
        have hjl : j ≠ l := fun heq => (mem_newKeys.1 hl).2 (by simp [heq])
        rw [List.idxOf_cons_self, List.idxOf_cons_ne ks hjl]
        omega

/-! ## Entries -/

theorem ofPairs_eq_insertAll (ps : List (κ × α)) : ofPairs ps = insertAll ps [] := rfl

/-- Keys stay distinct. -/
theorem nodup_keys_insertAll (ps : List (κ × α)) {m : List (κ × α)} (h : (keys m).Nodup) :
    (keys (insertAll ps m)).Nodup := by
  induction ps generalizing m with
  | nil => exact h
  | cons p ps ih => exact ih (nodup_keys_insert p.1 p.2 h)

theorem insert_of_not_mem {k : κ} (a : α) {m : List (κ × α)} (h : k ∉ keys m) :
    insert k a m = m ++ [(k, a)] := by
  induction m with
  | nil => rfl
  | cons p m ih =>
      rcases p with ⟨l, b⟩
      simp only [keys, List.map_cons, List.mem_cons, not_or] at h
      rw [insert, if_neg (Ne.symm h.1), ih h.2, List.cons_append]

/-- An entry of a map is an inserted pair or was there before. -/
theorem mem_of_mem_insert {k : κ} {a : α} {p : κ × α} {m : List (κ × α)}
    (h : p ∈ insert k a m) : p = (k, a) ∨ p ∈ m := by
  induction m with
  | nil => exact .inl (List.mem_singleton.1 h)
  | cons q m ih =>
      rcases q with ⟨l, b⟩
      rw [insert] at h
      split at h
      · rcases List.mem_cons.1 h with h | h
        · exact .inl h
        · exact .inr (List.mem_cons_of_mem _ h)
      · rcases List.mem_cons.1 h with h | h
        · exact .inr (h ▸ List.mem_cons_self)
        · rcases ih h with h | h
          · exact .inl h
          · exact .inr (List.mem_cons_of_mem _ h)

theorem mem_of_mem_insertAll {p : κ × α} {ps m : List (κ × α)} (h : p ∈ insertAll ps m) :
    p ∈ ps ∨ p ∈ m := by
  induction ps generalizing m with
  | nil => exact .inr h
  | cons q ps ih =>
      rcases ih h with h | h
      · exact .inl (List.mem_cons_of_mem _ h)
      · rcases mem_of_mem_insert h with rfl | h
        · exact .inl List.mem_cons_self
        · exact .inr h

/-- Pairs with distinct new keys go to the end as they are. -/
theorem insertAll_of_nodup {ps m : List (κ × α)} (h : (keys (m ++ ps)).Nodup) :
    insertAll ps m = m ++ ps := by
  induction ps generalizing m with
  | nil => rw [insertAll_nil, List.append_nil]
  | cons p ps ih =>
      have hsplit : m ++ p :: ps = m ++ [p] ++ ps := by simp
      have hp : p.1 ∉ keys m := by
        rw [keys, List.map_append, List.nodup_append] at h
        intro hmem
        exact h.2.2 p.1 hmem p.1 (by simp) rfl
      rw [insertAll_cons, insert_of_not_mem p.2 hp, hsplit]
      apply ih
      rw [← hsplit]
      exact h

/-- A map with distinct keys is rebuilt from its entries. -/
theorem ofPairs_of_nodup {m : List (κ × α)} (h : (keys m).Nodup) : ofPairs m = m := by
  rw [ofPairs_eq_insertAll, insertAll_of_nodup]
  · rfl
  · exact h

/-- With distinct keys, an entry is found under its key. -/
theorem find?_of_mem {k : κ} {a : α} {m : List (κ × α)} (h : (keys m).Nodup) (hmem : (k, a) ∈ m) :
    find? k m = some a := by
  induction m with
  | nil => exact absurd hmem List.not_mem_nil
  | cons p m ih =>
      rcases p with ⟨l, b⟩
      simp only [keys, List.map_cons, List.nodup_cons] at h
      rcases List.mem_cons.1 hmem with heq | hrest
      · obtain ⟨rfl, rfl⟩ := Prod.mk.inj heq
        rw [find?, if_pos rfl]
      · -- the key stands further on, so the first one is another
        have hl : l ≠ k := by
          rintro rfl
          exact h.1 (List.mem_map.2 ⟨(l, a), hrest, rfl⟩)
        rw [find?, if_neg hl]
        exact ih h.2 hrest

theorem mem_of_find? {k : κ} {a : α} {m : List (κ × α)} (h : find? k m = some a) : (k, a) ∈ m := by
  induction m with
  | nil => simp [find?] at h
  | cons p m ih =>
      rcases p with ⟨l, b⟩
      rw [find?] at h
      split at h
      · next hl =>
        obtain rfl := Option.some.inj h
        rw [hl]
        exact List.mem_cons_self
      · exact List.mem_cons_of_mem _ (ih h)

/-- With distinct keys, the entries of a map are what is found in it. -/
theorem mem_iff_find? {k : κ} {a : α} {m : List (κ × α)} (h : (keys m).Nodup) :
    (k, a) ∈ m ↔ find? k m = some a :=
  ⟨find?_of_mem h, mem_of_find?⟩

omit [DecidableEq κ] in
theorem nodup_of_nodup_keys {m : List (κ × α)} (h : (keys m).Nodup) : m.Nodup := by
  rw [keys, List.nodup_iff_pairwise_ne, List.pairwise_map] at h
  exact h.imp fun hne heq => hne (congrArg Prod.fst heq)

/-- Maps in which the same is found have the same entries. -/
theorem perm_of_find?_eq {m n : List (κ × α)} (hm : (keys m).Nodup) (hn : (keys n).Nodup)
    (h : ∀ k, find? k m = find? k n) : m.Perm n := by
  rw [List.perm_ext_iff_of_nodup (nodup_of_nodup_keys hm) (nodup_of_nodup_keys hn)]
  rintro ⟨k, a⟩
  rw [mem_iff_find? hm, mem_iff_find? hn, h k]

/-- Maps with the same keys in the same order, in which the same is found, are the same. -/
theorem eq_of_find?_eq {m n : List (κ × α)} (hkeys : keys m = keys n) (hm : (keys m).Nodup)
    (h : ∀ k, find? k m = find? k n) : m = n := by
  induction m generalizing n with
  | nil => exact (List.map_eq_nil_iff.1 hkeys.symm).symm
  | cons p m ih =>
      rcases p with ⟨k, a⟩
      cases n with
      | nil => exact absurd hkeys (by simp [keys])
      | cons q n =>
          rcases q with ⟨l, b⟩
          obtain ⟨rfl, htail⟩ : k = l ∧ keys m = keys n := List.cons.inj hkeys
          have hnot : k ∉ keys m := (List.nodup_cons.1 hm).1
          have hval : a = b := by simpa [find?] using h k
          have hrest : m = n := by
            apply ih htail (List.nodup_cons.1 hm).2
            intro j
            by_cases hj : k = j
            · -- behind its entry the key is not found again
              subst hj
              rw [find?_eq_none_iff.2 hnot, find?_eq_none_iff.2 (htail ▸ hnot)]
            · simpa [find?, hj] using h j
          rw [hval, hrest]

/-! ## Swaps -/

section Swaps

variable {ps qs m : List (κ × α)}

/-- Insertions that share no key can be exchanged, as far as values go. -/
theorem find?_insertAll_swap (h : ∀ k ∈ keys ps, k ∉ keys qs) (m : List (κ × α)) (k : κ) :
    find? k (insertAll (ps ++ qs) m) = find? k (insertAll (qs ++ ps) m) := by
  rw [insertAll_append, insertAll_append]
  by_cases hk : k ∈ keys ps
  · rw [find?_insertAll_of_not_mem (h k hk), find?_insertAll k ps, find?_insertAll k ps,
      find?_insertAll_of_not_mem (h k hk)]
  · rw [find?_insertAll_of_not_mem hk, find?_insertAll k qs, find?_insertAll k qs,
      find?_insertAll_of_not_mem hk]

/-- When all keys are bound, none of them is new. -/
theorem keys_insertAll_of_bound (h : ∀ k ∈ keys ps, k ∈ keys m) :
    keys (insertAll ps m) = keys m := by
  have hnew : newKeys (keys m) (keys ps) = [] := by
    rw [List.eq_nil_iff_forall_not_mem]
    intro k hk
    obtain ⟨hmem, hnot⟩ := mem_newKeys.1 hk
    exact hnot (h k hmem)
  rw [keys_insertAll, hnew, List.append_nil]

/-- Nothing tells the order of insertions that only overwrite. -/
theorem insertAll_swap (hm : (keys m).Nodup) (h : ∀ k ∈ keys ps, k ∉ keys qs)
    (hps : ∀ k ∈ keys ps, k ∈ keys m) (hqs : ∀ k ∈ keys qs, k ∈ keys m) :
    insertAll (ps ++ qs) m = insertAll (qs ++ ps) m := by
  have hbound : ∀ k, k ∈ keys (ps ++ qs) ∨ k ∈ keys (qs ++ ps) → k ∈ keys m := by
    intro k hk
    simp only [keys, List.map_append, List.mem_append, or_comm, or_self] at hk
    exact hk.elim (hps k) (hqs k)
  apply eq_of_find?_eq
  · rw [keys_insertAll_of_bound fun k hk => hbound k (.inl hk),
      keys_insertAll_of_bound fun k hk => hbound k (.inr hk)]
  · exact nodup_keys_insertAll (ps ++ qs) hm
  · exact find?_insertAll_swap h m

end Swaps

/-! ## Merges -/

/-- `fresh` is what some keys add to bound ones: those that are not bound, each of them once, in the
order of their first occurrences. -/
structure FirstOccurrences (bound ks fresh : List κ) : Prop where
  mem : ∀ k, k ∈ fresh ↔ k ∈ ks ∧ k ∉ bound
  order : fresh.Pairwise fun k l => ks.idxOf k < ks.idxOf l

theorem firstOccurrences_newKeys (bound ks : List κ) :
    FirstOccurrences bound ks (newKeys bound ks) where
  mem _ := mem_newKeys
  order := newKeys_pairwise bound ks

/-- No other list has these keys in this order. -/
theorem FirstOccurrences.eq_newKeys {bound ks fresh : List κ} (h : FirstOccurrences bound ks fresh) :
    fresh = newKeys bound ks := by
  have hnodup : fresh.Nodup := h.order.imp fun hlt heq => absurd (heq ▸ hlt) (Nat.lt_irrefl _)
  have hperm : fresh.Perm (newKeys bound ks) := by
    rw [List.perm_ext_iff_of_nodup hnodup (nodup_newKeys bound ks)]
    intro k
    rw [h.mem, mem_newKeys]
  apply hperm.eq_of_pairwise _ h.order (newKeys_pairwise bound ks)
  intro k l _ _ hkl hlk
  omega

/-- Only the membership of bound keys counts. -/
theorem FirstOccurrences.of_bound_iff {bound bound' ks fresh : List κ}
    (h : FirstOccurrences bound ks fresh) (hbound : ∀ k, k ∈ bound ↔ k ∈ bound') :
    FirstOccurrences bound' ks fresh where
  mem k := by rw [h.mem, hbound]
  order := h.order

/-- A map holds what pairs bind: every key once, at the place of its first pair and with the value
of its last one. -/
structure Merged (ps m : List (κ × α)) : Prop where
  order : FirstOccurrences [] (keys ps) (keys m)
  last : ∀ k a earlier later, ps = earlier ++ (k, a) :: later → k ∉ keys later →
    find? k m = some a

namespace Merged

variable {ps m : List (κ × α)}

theorem mem_keys (h : Merged ps m) {k : κ} : k ∈ keys m ↔ k ∈ keys ps := by
  rw [h.order.mem]
  simp

theorem nodup_keys (h : Merged ps m) : (keys m).Nodup := by
  rw [h.order.eq_newKeys]
  exact nodup_newKeys [] (keys ps)

end Merged

theorem find?_insertAll_of_last {k : κ} {a : α} {earlier later : List (κ × α)}
    (h : k ∉ keys later) (m : List (κ × α)) :
    find? k (insertAll (earlier ++ (k, a) :: later) m) = some a := by
  rw [insertAll_append, insertAll_cons, find?_insertAll_of_not_mem h, find?_insert, if_pos rfl]

theorem merged_ofPairs (ps : List (κ × α)) : Merged ps (ofPairs ps) where
  order := by
    rw [ofPairs_eq_insertAll, keys_insertAll]
    exact firstOccurrences_newKeys [] (keys ps)
  last := by
    rintro k a earlier later rfl hlater
    exact find?_insertAll_of_last hlater []

/-- Among pairs that bind a key there is a last one. -/
theorem exists_last {k : κ} {ps : List (κ × α)} (h : k ∈ keys ps) :
    ∃ a earlier later, ps = earlier ++ (k, a) :: later ∧ k ∉ keys later := by
  induction ps with
  | nil => exact absurd h List.not_mem_nil
  | cons p ps ih =>
      rcases p with ⟨l, b⟩
      by_cases hrest : k ∈ keys ps
      · obtain ⟨a, earlier, later, rfl, hlater⟩ := ih hrest
        exact ⟨a, (l, b) :: earlier, later, rfl, hlater⟩
      · obtain rfl : k = l := (List.mem_cons.1 h).resolve_right hrest
        exact ⟨b, [], ps, rfl, hrest⟩

/-- Pairs are merged in one way only. -/
theorem Merged.eq_ofPairs {ps m : List (κ × α)} (h : Merged ps m) : m = ofPairs ps := by
  have hmerged := merged_ofPairs ps
  have hkeys : keys m = keys (ofPairs ps) :=
    h.order.eq_newKeys.trans hmerged.order.eq_newKeys.symm
  apply eq_of_find?_eq hkeys h.nodup_keys
  intro k
  by_cases hk : k ∈ keys ps
  · obtain ⟨a, earlier, later, hps, hlater⟩ := exists_last hk
    rw [h.last k a earlier later hps hlater, hmerged.last k a earlier later hps hlater]
  · rw [find?_eq_none_iff.2 fun hmem => hk (h.mem_keys.1 hmem),
      find?_eq_none_iff.2 fun hmem => hk (hmerged.mem_keys.1 hmem)]

end CueScript.Bindings
