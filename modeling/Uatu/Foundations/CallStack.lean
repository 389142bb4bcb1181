import Uatu.Foundations.Trajectory
import Mathlib.Data.List.Flatten
import Mathlib.Order.Basic
import Mathlib.Data.Nat.Basic

/-!
# Call stacks

A program at the level of its calls. A `Move` is what one of its steps does to the call stack and
where the program is after it; every invocation has a serial number of its own, so that two
invocations of one function are told apart, also when they return to the same address. `Calls`
holds what the moves lead to: the active invocations, where the program is, and whether it got
there by entering or by leaving an invocation. `FirstAt` is the first position of a log of moves,
from a given one on, at which the program is at an address.
-/

namespace CallStack

/-- The place of an active invocation on the stack. A tail call puts a second invocation in the
place of the first, and both are left by one return. -/
structure Frame (α : Type) where
  /-- The invocations in this place, the innermost first. -/
  serials : List ℕ
  /-- Where they return to. -/
  ret : α

/-- A step of the program. A signal handler is called by the kernel; a signal that arrives at an
address of interest is taken to arrive before the step that leads there. -/
inductive Move (α : Type)
  | call (target ret : α)
  | tailCall (target : α)
  | ret
  /-- An exception or a `longjmp` leaves the innermost `n` places. -/
  | unwind (n : ℕ) (target : α)
  | go (target : α)

/-- How a program has come to where it is. -/
inductive Arrival
  | entered (serial : ℕ)
  | left (serials : List ℕ)
  | other

/-- The calls of a program. -/
structure Calls (α : Type) where
  /-- The innermost first. -/
  stack : List (Frame α)
  /-- The number of invocations up to now, which is the serial number of the next. -/
  made : ℕ
  here : α
  arrived : Arrival
  ordered : (made :: stack.flatMap Frame.serials).Pairwise (· > ·)

namespace Calls

variable {α : Type}

/-- A new invocation has a serial number larger than all others. -/
theorem ordered_succ (K : Calls α) :
    ((K.made + 1) :: K.made :: K.stack.flatMap Frame.serials).Pairwise (· > ·) := by
  refine List.pairwise_cons.2 ⟨fun n hn => ?_, K.ordered⟩
  obtain rfl | hn := List.mem_cons.1 hn
  · exact Nat.lt_succ_self _
  · exact ((List.pairwise_cons.1 K.ordered).1 n hn).trans (Nat.lt_succ_self _)

/-- The calls after a step; without an active invocation none returns or is replaced. -/
def move : Move α → Calls α → Calls α
  | .call target ret, K =>
    { stack := ⟨[K.made], ret⟩ :: K.stack
      made := K.made + 1
      here := target
      arrived := .entered K.made
      ordered := K.ordered_succ }
  | .tailCall target, K =>
    match hs : K.stack with
    | [] => K
    | f :: fs =>
      { stack := ⟨K.made :: f.serials, f.ret⟩ :: fs
        made := K.made + 1
        here := target
        arrived := .entered K.made
        ordered := by simpa [hs] using K.ordered_succ }
  | .ret, K =>
    match hs : K.stack with
    | [] => K
    | f :: fs =>
      { stack := fs
        made := K.made
        here := f.ret
        arrived := .left f.serials
        ordered := by
          have h := K.ordered
          rw [hs, List.flatMap_cons] at h
          exact h.sublist (.cons_cons _ (List.sublist_append_right ..)) }
  | .unwind n target, K =>
    { stack := K.stack.drop n
      made := K.made
      here := target
      arrived := .other
      ordered := K.ordered.sublist (.cons_cons _ ((List.drop_sublist n _).flatMap _)) }
  | .go target, K => { K with here := target, arrived := .other }

/-- The calls after a log of moves. -/
def after (K : Calls α) (log : List (Move α)) : Calls α := Trajectory.final move K log

variable {K : Calls α} {log ms : List (Move α)}

theorem after_append : K.after (log ++ ms) = (K.after log).after ms := Trajectory.final_append

/-- The calls at a position of a log do not depend on what follows. -/
theorem after_take_append {j : ℕ} (h : j ≤ log.length) :
    K.after ((log ++ ms).take j) = K.after (log.take j) := by
  rw [List.take_append_of_le_length h]

/-- Positions past a log are positions of what follows. -/
theorem after_take_add (j : ℕ) :
    K.after ((log ++ ms).take (log.length + j)) = (K.after log).after (ms.take j) := by
  rw [List.take_length_add_append, after_append]

/-- From position `k` on, the program is at the address `a` at position `j` for the first time. -/
structure FirstAt (K : Calls α) (log : List (Move α)) (k : ℕ) (a : α) (j : ℕ) : Prop where
  from_le : k ≤ j
  le_length : j ≤ log.length
  here : (K.after (log.take j)).here = a
  before : ∀ i, k ≤ i → i < j → (K.after (log.take i)).here ≠ a

variable {k j j' : ℕ} {a : α}

theorem FirstAt.unique (h : K.FirstAt log k a j) (h' : K.FirstAt log k a j') : j = j' := by
  obtain hlt | heq | hlt := lt_trichotomy j j'
  · exact (h'.before j h.from_le hlt h.here).elim
  · exact heq
  · exact (h.before j' h'.from_le hlt h'.here).elim

theorem FirstAt.append (h : K.FirstAt log k a j) : K.FirstAt (log ++ ms) k a j where
  from_le := h.from_le
  le_length := h.le_length.trans (by simp)
  here := by rw [after_take_append h.le_length, h.here]
  before i hk hi := by
    rw [after_take_append (hi.le.trans h.le_length)]
    exact h.before i hk hi

end Calls

end CallStack
