import Mathlib.Data.List.Basic
import Mathlib.Tactic.SplitIfs

/-!
# Readers of lists

A reader takes a value off the front of a text. The items of a list are separated by one symbol and
end with another. If an item can be read in front of either symbol, then so can a list of them
(`readList_printList`).
-/

namespace Readers

variable {α β : Type*}

/-! ## Writing -/

section Print

variable (print : α → List β) (sep close : β)

/-- The items after the first one. -/
def printTail : List α → List β
  | [] => [close]
  | a :: l => sep :: (print a ++ printTail l)

/-- The items of a list. -/
def printList : List α → List β
  | [] => [close]
  | a :: l => print a ++ printTail print sep close l

variable {print sep close}

theorem length_lt_printTail (l : List α) : l.length < (printTail print sep close l).length := by
  induction l with
  | nil => exact Nat.zero_lt_one
  | cons a l ih =>
    rw [printTail, List.length_cons, List.length_cons, List.length_append]
    omega

theorem printTail_eq_cons (l : List α) :
    ∃ x s, (x = sep ∨ x = close) ∧ printTail print sep close l = x :: s := by
  cases l with
  | nil => exact ⟨close, [], .inr rfl, rfl⟩
  | cons a l => exact ⟨sep, _, .inl rfl, rfl⟩

end Print

/-! ## Reading -/

/-- A reader: the value and what follows it. -/
abbrev Reader (α β : Type*) := List β → Option (α × List β)

section Read

variable [DecidableEq β] (item : Reader α β) (sep close : β)

/-- Read the items after the first one. The number bounds how many there are. -/
def readTail : ℕ → Reader (List α) β
  | 0, _ => none
  | _ + 1, [] => none
  | n + 1, x :: s =>
    if x = close then some ([], s)
    else if x = sep then do
      let (a, s) ← item s
      let (l, s) ← readTail n s
      return (a :: l, s)
    else none

/-- Read the items of a list. -/
def readList : Reader (List α) β
  | [] => none
  | x :: s =>
    if x = close then some ([], s)
    else do
      let (a, s) ← item (x :: s)
      let (l, s) ← readTail item sep close s.length s
      return (a :: l, s)

variable {item sep close} {print : α → List β} (hsep : sep ≠ close)
  (hitem : ∀ a x s, x = sep ∨ x = close → item (print a ++ x :: s) = some (a, x :: s))
include hsep hitem

theorem readTail_printTail (l : List α) {n : ℕ} (hn : l.length < n) (s : List β) :
    readTail item sep close n (printTail print sep close l ++ s) = some (l, s) := by
  induction l generalizing n with
  | nil =>
    cases n with
    | zero => cases hn
    | succ n => rw [printTail, List.singleton_append, readTail, if_pos rfl]
  | cons a l ih =>
    obtain ⟨x, t, hx, ht⟩ := @printTail_eq_cons _ _ print sep close l
    cases n with
    | zero => cases hn
    | succ n =>
      have hrest := ih (Nat.lt_of_succ_lt_succ hn)
      rw [ht, List.cons_append] at hrest
      rw [printTail, List.cons_append, readTail, if_neg hsep, if_pos rfl, List.append_assoc, ht,
        List.cons_append, hitem a x _ hx]
      change (readTail item sep close n (x :: (t ++ s)) >>= _) = _
      rw [hrest]
      rfl

/-- A list is read back, if no item begins like the end of it. -/
theorem readList_printList (hclose : ∀ a s, print a ≠ close :: s) (hne : ∀ a, print a ≠ [])
    (l : List α) (s : List β) :
    readList item sep close (printList print sep close l ++ s) = some (l, s) := by
  cases l with
  | nil => rw [printList, List.singleton_append, readList, if_pos rfl]
  | cons a l =>
    obtain ⟨x, t, hx, ht⟩ := @printTail_eq_cons _ _ print sep close l
    obtain ⟨y, u, hu⟩ := List.exists_cons_of_ne_nil (hne a)
    have hy : y ≠ close := by
      rintro rfl
      exact hclose a u hu
    have hread := hitem a x (t ++ s) hx
    rw [hu, List.cons_append] at hread
    rw [printList, ht, List.append_assoc, hu, List.cons_append, readList, if_neg hy,
      List.cons_append, hread]
    change (readTail item sep close _ (x :: (t ++ s)) >>= _) = _
    rw [← List.cons_append, ← ht, readTail_printTail hsep hitem l]
    · rfl
    · rw [List.length_append]
      exact Nat.lt_of_lt_of_le (length_lt_printTail l) (Nat.le_add_right ..)

end Read

end Readers
