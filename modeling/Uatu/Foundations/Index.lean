import Mathlib.Data.List.AList

/-!
# Indexes

An index is a map built by inserting one entry for each element of a list. Of several elements with
the same key either the last one is found (`insertAll`) or the first (`insertNew`).
-/

namespace Index

variable {α κ β : Type} [DecidableEq κ] (key : α → κ) (val : α → β)

/-- Insert the entries of the elements. -/
def insertAll (l : List α) (m : AList fun _ : κ => β) : AList fun _ : κ => β :=
  l.foldl (fun m a => m.insert (key a) (val a)) m

variable {key val} {l : List α} {m : AList fun _ : κ => β} {k : κ} {v : β}

/-- What an index finds was there before or is the entry of an element. -/
theorem lookup_insertAll (h : (insertAll key val l m).lookup k = some v) :
    m.lookup k = some v ∨ ∃ a ∈ l, key a = k ∧ val a = v := by
  induction l generalizing m with
  | nil => exact .inl h
  | cons a l ih =>
    obtain h | ⟨b, hb, hkey, hval⟩ := ih h
    · by_cases hk : k = key a
      · subst hk
        rw [AList.lookup_insert, Option.some.injEq] at h
        exact .inr ⟨a, List.mem_cons_self .., rfl, h⟩
      · rw [AList.lookup_insert_ne hk] at h
        exact .inl h
    · exact .inr ⟨b, List.mem_cons_of_mem _ hb, hkey, hval⟩

/-- An index has the keys of all elements. -/
theorem mem_insertAll : k ∈ insertAll key val l m ↔ k ∈ m ∨ ∃ a ∈ l, key a = k := by
  induction l generalizing m with
  | nil => simp [insertAll]
  | cons a l ih =>
    rw [insertAll, List.foldl_cons, ← insertAll, ih, AList.mem_insert, List.exists_mem_cons_iff,
      eq_comm, or_assoc, or_left_comm]

/-! ## The first element of each key -/

variable (key val) in
/-- Insert the entries of the elements whose keys are not there yet. -/
def insertNew (l : List α) (m : AList fun _ : κ => β) : AList fun _ : κ => β :=
  l.foldl (fun m a => if key a ∈ m then m else m.insert (key a) (val a)) m

/-- What such an index finds was there before or is the entry of the first element. -/
theorem lookup_insertNew : (insertNew key val l m).lookup k =
    (m.lookup k).or ((l.find? fun a => key a = k).map val) := by
  induction l generalizing m with
  | nil => simp [insertNew]
  | cons a l ih =>
    rw [insertNew, List.foldl_cons, ← insertNew, ih]
    by_cases hk : key a = k
    · subst hk
      rw [List.find?_cons_of_pos (by simp)]
      by_cases hm : key a ∈ m
      · obtain ⟨v, hv⟩ := Option.isSome_iff_exists.1 (AList.lookup_isSome.2 hm)
        rw [if_pos hm, hv, Option.some_or, Option.some_or]
      · rw [if_neg hm, AList.lookup_insert, AList.lookup_eq_none.2 hm, Option.some_or,
          Option.none_or, Option.map_some]
    · rw [List.find?_cons_of_neg (by simpa using hk)]
      by_cases hm : key a ∈ m
      · rw [if_pos hm]
      · rw [if_neg hm, AList.lookup_insert_ne (Ne.symm hk)]

/-- Such an index has the keys of all elements, too. -/
theorem mem_insertNew : k ∈ insertNew key val l m ↔ k ∈ m ∨ ∃ a ∈ l, key a = k := by
  rw [← AList.lookup_isSome, lookup_insertNew, Option.isSome_or, Bool.or_eq_true,
    AList.lookup_isSome, Option.isSome_map, List.find?_isSome]
  simp

end Index
