import Mathlib.Data.List.Count
import Mathlib.Logic.Function.Basic

/-!
# Handing out registers

Values of several classes take the registers of their class in order, each the next one. The number
that a value gets depends only on how many of its class come before it (`getElem?_numbers`).
-/

namespace Registers

variable {α κ : Type*} [DecidableEq κ]

/-- The numbers that the members of a list get, if each takes the next one of its class. -/
def numbers (cls : α → κ) : (κ → ℕ) → List α → List ℕ
  | _, [] => []
  | next, a :: l =>
    next (cls a) :: numbers cls (Function.update next (cls a) (next (cls a) + 1)) l

variable {cls : α → κ} {next : κ → ℕ} {l : List α} {a : α} {i n : ℕ}

/-- A member gets the first number of its class that those before it have left. -/
theorem getElem?_numbers (cls : α → κ) (next : κ → ℕ) (l : List α) (i : ℕ) :
    (numbers cls next l)[i]? =
      l[i]?.map fun a => next (cls a) + (l.take i).countP (cls · = cls a) := by
  induction l generalizing next i with
  | nil => rfl
  | cons b l ih =>
    rw [numbers]
    cases i with
    | zero => rfl
    | succ i =>
      rw [List.getElem?_cons_succ, List.getElem?_cons_succ, ih]
      congr 1
      funext a
      rw [List.take_succ_cons, List.countP_cons]
      by_cases h : cls b = cls a
      · rw [h, Function.update_self, if_pos (decide_eq_true rfl)]
        omega
      · rw [Function.update_of_ne (Ne.symm h), if_neg (by rw [decide_eq_true_eq]; exact h)]
        omega

/-- The members with a property come one after the other: there is one that so many of them come
before. -/
theorem exists_countP_take {p : α → Bool} (h : n < l.countP p) :
    ∃ i a, l[i]? = some a ∧ p a ∧ (l.take i).countP p = n := by
  induction l generalizing n with
  | nil => cases h
  | cons b l ih =>
    rw [List.countP_cons] at h
    by_cases hb : p b
    · cases n with
      | zero => exact ⟨0, b, rfl, hb, rfl⟩
      | succ n =>
        rw [if_pos hb] at h
        obtain ⟨i, a, hi, ha, hcount⟩ := ih (n := n) (by omega)
        refine ⟨i + 1, a, hi, ha, ?_⟩
        rw [List.take_succ_cons, List.countP_cons, if_pos hb, hcount]
    · rw [if_neg hb] at h
      obtain ⟨i, a, hi, ha, hcount⟩ := ih h
      refine ⟨i + 1, a, hi, ha, ?_⟩
      rw [List.take_succ_cons, List.countP_cons, if_neg hb, hcount, Nat.add_zero]

/-- Fewer members with a property come before one of them than there are. -/
theorem countP_take_lt {p : α → Bool} (hi : l[i]? = some a) (ha : p a) :
    (l.take i).countP p < l.countP p := by
  have hsplit : l.take (i + 1) = l.take i ++ [a] := by
    rw [List.take_add_one, hi]
    rfl
  have hle : (l.take (i + 1)).countP p ≤ l.countP p := (List.take_sublist _ l).countP_le
  rw [hsplit, List.countP_append, List.countP_singleton, if_pos ha] at hle
  omega

end Registers
