/-!
# CueScript.Bindings — ordered finite maps as lists of pairs

1. **Operations**: `find?` looks a key up; `insert` overwrites a bound key in its place and puts a
   new one at the end; `ofPairs` inserts pairs one after the other, so that a repeated key keeps its
   first position and takes its last value.
2. **Laws**: what `find?` and the keys are after an insertion, and that keys stay distinct.
-/

namespace CueScript.Bindings

variable {κ α : Type} [DecidableEq κ]

/-! ## Operations -/

def keys (m : List (κ × α)) : List κ :=
  m.map Prod.fst

def find? (k : κ) : List (κ × α) → Option α
  | [] => none
  | (l, a) :: m => if l = k then some a else find? k m

/-- Binds a key: in its place if it is bound, else at the end. -/
def insert (k : κ) (a : α) : List (κ × α) → List (κ × α)
  | [] => [(k, a)]
  | (l, b) :: m => if l = k then (k, a) :: m else (l, b) :: insert k a m

def ofPairs (ps : List (κ × α)) : List (κ × α) :=
  ps.foldl (fun m p => insert p.1 p.2 m) []

/-! ## Laws -/

/-- An inserted key has the new value, any other key what it had. -/
theorem find?_insert (k l : κ) (a : α) (m : List (κ × α)) :
    find? l (insert k a m) = if k = l then some a else find? l m := by
  induction m with
  | nil => simp [insert, find?]
  | cons p m ih =>
    obtain ⟨j, b⟩ := p
    simp only [insert, find?]
    split
    · next h =>
      subst h
      simp only [find?]
      split <;> rfl
    · next h =>
      simp only [find?, ih]
      by_cases hj : j = l
      · subst hj
        simp [Ne.symm h]
      · simp [hj]

/-- A bound key keeps its place; a new key goes to the end. -/
theorem keys_insert (k : κ) (a : α) (m : List (κ × α)) :
    keys (insert k a m) = if k ∈ keys m then keys m else keys m ++ [k] := by
  induction m with
  | nil => simp [insert, keys]
  | cons p m ih =>
    obtain ⟨j, b⟩ := p
    simp only [insert]
    split
    · next h => simp [keys, h]
    · next h =>
      simp only [keys, List.map_cons, List.mem_cons, Ne.symm h, false_or] at ih ⊢
      rw [ih]
      split <;> simp_all

theorem nodup_keys_insert (k : κ) (a : α) {m : List (κ × α)} (h : (keys m).Nodup) :
    (keys (insert k a m)).Nodup := by
  rw [keys_insert]
  split
  · exact h
  · next hk =>
    rw [List.nodup_append]
    refine ⟨h, by simp, ?_⟩
    intro x hx y hy
    rw [List.mem_singleton.1 hy]
    exact fun he => hk (he ▸ hx)

/-- A key is bound exactly when it is found. -/
theorem find?_isSome_iff (k : κ) (m : List (κ × α)) : (find? k m).isSome ↔ k ∈ keys m := by
  induction m with
  | nil => simp [find?, keys]
  | cons p m ih =>
    obtain ⟨j, b⟩ := p
    simp only [find?, keys, List.map_cons, List.mem_cons] at ih ⊢
    split
    · next h => simp [h]
    · next h => simp [ih, Ne.symm h]

end CueScript.Bindings
