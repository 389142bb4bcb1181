import Mathlib.Data.List.Induction

/-!
# Lazily initialised cells

A cell is filled by the first attempt to compute its value that succeeds, and keeps the value from
then on, whatever a later attempt would give. What a sequence of attempts leaves in it is the first
success: one more attempt changes that as it changes the cell (`firstOk_concat`).
-/

namespace LazyCell

variable {ε α : Type*}

/-- Ask for the value: what the cell holds, or else what computing it yields now. -/
def ask (attempt : Except ε α) : Option α → Except ε α
  | some a => .ok a
  | none => attempt

/-- The cell after it has been asked. -/
def fill (attempt : Except ε α) : Option α → Option α
  | some a => some a
  | none => attempt.toOption

/-- The first success. -/
def firstOk (attempts : List (Except ε α)) : Option α :=
  (attempts.filterMap Except.toOption).head?

@[simp] theorem firstOk_concat (attempts : List (Except ε α)) (attempt : Except ε α) :
    firstOk (attempts ++ [attempt]) = fill attempt (firstOk attempts) := by
  rw [firstOk, List.filterMap_append, List.head?_append, ← firstOk]
  cases firstOk attempts with
  | some a => rfl
  | none => cases attempt <;> rfl

end LazyCell
