import Mathlib.Data.List.AList
import Mathlib.Data.List.Perm.Subperm
import Mathlib.Data.Nat.Basic
import Mathlib.Tactic.SplitIfs

/-!
# Maps of bounded size

A map that refuses new keys when it is full, as the maps of a kernel do; a key that is there can
always be given a new value. As long as all keys come from a list of at most as many as the map
holds, no update is refused (`lookup_update_self`).
-/

/-- A map of at most `n` keys. -/
structure BoundedMap (κ β : Type) [DecidableEq κ] (n : ℕ) where
  entries : AList fun _ : κ => β
  size_le : entries.keys.length ≤ n

namespace BoundedMap

variable {κ β : Type} [DecidableEq κ] {n : ℕ}

def empty : BoundedMap κ β n := ⟨∅, by simp⟩

instance : Inhabited (BoundedMap κ β n) := ⟨empty⟩

def lookup (k : κ) (m : BoundedMap κ β n) : Option β := m.entries.lookup k

/-- Give a key a value, unless the key is new and the map is full. -/
def update (k : κ) (v : β) (m : BoundedMap κ β n) : BoundedMap κ β n :=
  if h : k ∈ m.entries ∨ m.entries.keys.length < n then
    { entries := m.entries.insert k v
      size_le := by
        rw [AList.keys_insert, List.length_cons]
        by_cases hk : k ∈ m.entries
        · rw [List.length_erase_of_mem (AList.mem_keys.1 hk)]
          have hpos := List.length_pos_of_mem (AList.mem_keys.1 hk)
          have hle := m.size_le
          omega
        · rw [List.erase_of_not_mem fun hk' => hk (AList.mem_keys.2 hk')]
          exact h.resolve_left hk }
  else m

def delete (k : κ) (m : BoundedMap κ β n) : BoundedMap κ β n :=
  { entries := m.entries.erase k
    size_le := by
      rw [AList.keys_erase]
      exact Nat.le_trans List.length_erase_le m.size_le }

variable {m : BoundedMap κ β n} {k k' : κ} {v : β} {ks : List κ}

@[simp] theorem lookup_empty : lookup k (empty : BoundedMap κ β n) = none := AList.lookup_empty k

@[simp] theorem lookup_delete_self : (m.delete k).lookup k = none := AList.lookup_erase k m.entries

theorem lookup_delete_of_ne (h : k ≠ k') : (m.delete k').lookup k = m.lookup k :=
  AList.lookup_erase_ne h

theorem lookup_update_of_ne (h : k ≠ k') : (m.update k' v).lookup k = m.lookup k := by
  unfold update
  split_ifs
  · exact AList.lookup_insert_ne h
  · rfl

/-- An update is not refused when all keys are among as many as the map holds. -/
theorem lookup_update_self (hm : m.entries.keys ⊆ ks) (hk : k ∈ ks) (hn : ks.length ≤ n) :
    (m.update k v).lookup k = some v := by
  have h : k ∈ m.entries ∨ m.entries.keys.length < n := by
    refine or_iff_not_imp_left.2 fun hmem => ?_
    have hnodup : (k :: m.entries.keys).Nodup :=
      List.nodup_cons.2 ⟨fun h => hmem (AList.mem_keys.2 h), m.entries.keys_nodup⟩
    have hsub : k :: m.entries.keys ⊆ ks := List.cons_subset.2 ⟨hk, hm⟩
    exact Nat.le_trans (hnodup.subperm hsub).length_le hn
  rw [update, dif_pos h]
  exact AList.lookup_insert m.entries

/-- An update is refused only when the key is new and the map is full. -/
theorem lookup_update_self_or : (m.update k v).lookup k = some v ∨
    (m.update k v).lookup k = none ∧ m.lookup k = none ∧ m.entries.keys.length = n := by
  unfold update
  split_ifs with h
  · exact .inl (AList.lookup_insert m.entries)
  · rw [not_or, not_lt] at h
    have hnone : m.lookup k = none := AList.lookup_eq_none.2 h.1
    exact .inr ⟨hnone, hnone, Nat.le_antisymm m.size_le h.2⟩

/-- What a key has after an update is the new value, if it has one. -/
theorem eq_of_lookup_update_self {w : β} (h : (m.update k v).lookup k = some w) : w = v := by
  rcases lookup_update_self_or (m := m) (k := k) (v := v) with hsome | ⟨hnone, -, -⟩
  · exact Option.some.inj (h.symm.trans hsome)
  · rw [hnone] at h
    cases h

/-- The only map without keys. -/
theorem eq_empty (h : ∀ k, m.lookup k = none) : m = empty := by
  have hkeys : m.entries.keys = [] :=
    List.eq_nil_iff_forall_not_mem.2 fun k hk => AList.lookup_eq_none.1 (h k) (AList.mem_keys.2 hk)
  have hentries : m.entries = ∅ := AList.ext (List.map_eq_nil_iff.1 hkeys)
  cases m
  subst hentries
  rfl

theorem keys_update_subset (hm : m.entries.keys ⊆ ks) (hk : k ∈ ks) :
    (m.update k v).entries.keys ⊆ ks := by
  unfold update
  split_ifs
  · rw [AList.keys_insert]
    exact List.cons_subset.2 ⟨hk, List.Subset.trans List.erase_subset hm⟩
  · exact hm

theorem keys_delete_subset (hm : m.entries.keys ⊆ ks) : (m.delete k).entries.keys ⊆ ks := by
  rw [delete, AList.keys_erase]
  exact List.Subset.trans List.erase_subset hm

end BoundedMap
