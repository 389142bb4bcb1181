import Mathlib.Algebra.GroupWithZero.Nat
import Mathlib.Data.List.Flatten
import Mathlib.Data.List.Forall2

/-!
# Intervals one after the other

Begins and ends are picked from a sequence of readings so that each interval has ended when the next
one begins. Then the intervals together are no longer than the readings (`sum_le_of_pairwise`).
-/

namespace Timeline

variable {α β : Type*} {readings : List α} {pairs : List (α × α)} {e x : α}

/-- The begins and ends of intervals. -/
def ends (pairs : List (α × α)) : List α := pairs.flatMap fun p => [p.1, p.2]

theorem ends_concat (pairs : List (α × α)) (p : α × α) :
    ends (pairs ++ [p]) = ends pairs ++ [p.1, p.2] := by
  rw [ends, List.flatMap_append, List.flatMap_singleton, ends]

theorem map_ends (f : α → β) (pairs : List (α × α)) :
    (ends pairs).map f = ends (pairs.map fun p => (f p.1, f p.2)) := by
  rw [ends, ends, List.map_flatMap, List.flatMap_map]
  rfl

/-- Intervals, and one that has not ended if there is one, are picked from readings in order. -/
def Picks (readings : List α) (pairs : List (α × α)) (pending : Option α) : Prop :=
  (ends pairs ++ pending.toList).Sublist readings

namespace Picks

theorem nil : Picks ([] : List α) [] none := List.Sublist.refl _

theorem skip {pending : Option α} (h : Picks readings pairs pending) (x : α) :
    Picks (readings ++ [x]) pairs pending :=
  List.Sublist.trans h (List.sublist_append_left ..)

theorem begins (h : Picks readings pairs none) (x : α) :
    Picks (readings ++ [x]) pairs (some x) := by
  rw [Picks, Option.toList_none, List.append_nil] at h
  exact h.append (List.Sublist.refl [x])

theorem ended (h : Picks readings pairs (some e)) (x : α) :
    Picks (readings ++ [x]) (pairs ++ [(e, x)]) none := by
  rw [Picks, ends_concat, Option.toList_none, List.append_nil]
  have hlist := List.Sublist.append h (List.Sublist.refl [x])
  rwa [List.append_assoc] at hlist

/-- An interval that has not ended is left out. -/
theorem sublist {pending : Option α} (h : Picks readings pairs pending) :
    (ends pairs).Sublist readings :=
  (List.sublist_append_left ..).trans h

end Picks

/-- No interval ends before it begins. -/
theorem fst_le_snd {pairs : List (ℕ × ℕ)} (horder : (ends pairs).Pairwise (· ≤ ·)) :
    ∀ p ∈ pairs, p.1 ≤ p.2 := by
  intro p hp
  have hsublist : [p.1, p.2].Sublist (ends pairs) :=
    List.sublist_flatten_of_mem (List.mem_map.2 ⟨p, hp, rfl⟩)
  exact List.pairwise_pair.1 (horder.sublist hsublist)

/-- Intervals one after the other between two readings. -/
theorem sum_le_of_pairwise {pairs : List (ℕ × ℕ)} {a b : ℕ}
    (horder : (ends pairs).Pairwise (· ≤ ·)) (hfrom : ∀ t ∈ ends pairs, a ≤ t)
    (hto : ∀ t ∈ ends pairs, t ≤ b) : (pairs.map fun p => p.2 - p.1).sum ≤ b - a := by
  induction pairs generalizing a with
  | nil => exact Nat.zero_le _
  | cons p pairs ih =>
    have hcons : ends (p :: pairs) = p.1 :: p.2 :: ends pairs := rfl
    rw [hcons] at horder hfrom hto
    obtain ⟨hbegin, hrest⟩ := List.pairwise_cons.1 horder
    obtain ⟨hend, horder⟩ := List.pairwise_cons.1 hrest
    have hsum := ih horder hend fun t ht => hto t (by simp [ht])
    have hle : a ≤ p.1 := hfrom _ (by simp)
    have hup : p.1 ≤ p.2 := hbegin _ (by simp)
    have hlast : p.2 ≤ b := hto _ (by simp)
    rw [List.map_cons, List.sum_cons]
    omega

end Timeline
