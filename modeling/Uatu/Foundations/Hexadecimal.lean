import Mathlib.Data.List.Basic
import Mathlib.Tactic.Common

/-!
# Hexadecimal numerals

The value of hexadecimal digits, of either case, and the digits of a number with zeros in front of
them.
-/

namespace Hexadecimal

def digitVal (c : Char) : ℕ :=
  if c.isDigit then c.toNat - '0'.toNat else c.toLower.toNat - 'a'.toNat + 10

/-- The number that digits stand for. -/
def value (digits : List Char) : ℕ := digits.foldl (fun v c => 16 * v + digitVal c) 0

/-- The digits of `v`, at least `n` of them. -/
def padded (n v : ℕ) : List Char := (Nat.toDigits 16 v).leftpad n '0'

theorem digitVal_digitChar : ∀ d < 16, digitVal (Nat.digitChar d) = d := by decide

theorem isHexDigit_digitChar : ∀ d < 16, (Nat.digitChar d).isHexDigit = true := by decide

theorem isHexDigit_of_mem_toDigits {v : ℕ} {c : Char} (h : c ∈ Nat.toDigits 16 v) :
    c.isHexDigit = true := by
  induction v using Nat.strongRecOn with
  | _ v ih =>
    rw [Nat.toDigits_eq_if (by decide)] at h
    split at h
    next hlt =>
      rw [List.mem_singleton.1 h]
      exact isHexDigit_digitChar v hlt
    · rcases List.mem_append.1 h with h | h
      · exact ih (v / 16) (by omega) h
      · rw [List.mem_singleton.1 h]
        exact isHexDigit_digitChar _ (Nat.mod_lt _ (by decide))

theorem isHexDigit_of_mem_padded {n v : ℕ} {c : Char} (h : c ∈ padded n v) :
    c.isHexDigit = true := by
  rcases List.mem_append.1 h with h | h
  · rw [List.eq_of_mem_replicate h]
    rfl
  · exact isHexDigit_of_mem_toDigits h

theorem padded_ne_nil (n v : ℕ) : padded n v ≠ [] :=
  List.append_ne_nil_of_right_ne_nil _ Nat.toDigits_ne_nil

theorem value_toDigits (v : ℕ) : value (Nat.toDigits 16 v) = v := by
  induction v using Nat.strongRecOn with
  | _ v ih =>
    rw [Nat.toDigits_eq_if (by decide)]
    split
    next hlt => simp [value, digitVal_digitChar v hlt]
    · have hrest := ih (v / 16) (by omega)
      rw [value, List.foldl_append, ← value, hrest, List.foldl_cons, List.foldl_nil,
        digitVal_digitChar _ (Nat.mod_lt _ (by decide)), Nat.div_add_mod]

@[simp] theorem value_padded (n v : ℕ) : value (padded n v) = v := by
  have hzeros : ∀ k, (List.replicate k '0').foldl (fun v c => 16 * v + digitVal c) 0 = 0 := by
    intro k
    induction k with
    | zero => rfl
    | succ k ih => exact ih
  rw [padded, List.leftpad, value, List.foldl_append, hzeros]
  exact value_toDigits v

end Hexadecimal
