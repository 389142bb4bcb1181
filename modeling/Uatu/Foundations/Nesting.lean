import Mathlib.Data.List.Basic

/-!
# Nested calls

Events that open and close calls, of any number of threads. `Balanced` says of the events of one
thread that they are calls, each with the calls made in it between its two ends; `Invocation` picks
the two ends of one call out of the events of all threads. What a call has between its ends is its
`mid`, of which the events of its own thread are balanced.
-/

namespace Nesting

variable {α τ : Type}

/-- The events of one kind of call stream: which open a call, and which closings fit which
openings. -/
structure Calls (α : Type) where
  opens : α → Bool
  fits : α → α → Prop

variable (C : Calls α)

/-- A sequence of calls, each with the calls made in it between its two ends. -/
inductive Balanced : List α → Prop
  | nil : Balanced []
  | call {x y : α} {body rest : List α} (hx : C.opens x = true) (hy : C.opens y = false)
      (hxy : C.fits x y) (hbody : Balanced body) (hrest : Balanced rest) :
      Balanced (x :: (body ++ y :: rest))

/-- `x` and `y` are the two ends of one call, and `mid` is what happens between them. -/
structure Invocation [DecidableEq τ] (thread : α → τ) (x : α) (mid : List α) (y : α) : Prop where
  opens : C.opens x = true
  closes : C.opens y = false
  fits : C.fits x y
  same : thread y = thread x
  nested : Balanced C (mid.filter fun z => thread z = thread x)

variable {C} {l : List α}

/-- Calls end with an event that closes one. -/
theorem Balanced.closes_last (h : Balanced C l) : ∀ z ∈ l.getLast?, C.opens z = false := by
  induction h with
  | nil => simp
  | @call x y body rest _ hy _ _ _ _ ihrest =>
    intro z hz
    cases rest with
    | nil =>
      rw [← List.cons_append, List.getLast?_concat] at hz
      cases hz
      exact hy
    | cons r rest =>
      refine ihrest z ?_
      rwa [← List.cons_append, List.append_cons, List.getLast?_append_of_ne_nil _ (by simp)] at hz

/-! ## Some of the calls -/

theorem Balanced.append {s : List α} (h : Balanced C l) (hs : Balanced C s) :
    Balanced C (l ++ s) := by
  induction h with
  | nil => exact hs
  | call hx hy hxy hbody _ _ ihrest =>
    rw [List.cons_append, List.append_assoc, List.cons_append]
    exact .call hx hy hxy hbody ihrest

/-- What takes both ends of a call or neither leaves calls. -/
theorem Balanced.filter {p : α → Bool} (h : Balanced C l)
    (hp : ∀ x y, C.fits x y → p y = p x) : Balanced C (l.filter p) := by
  induction h with
  | nil => exact .nil
  | @call x y body rest hx hy hxy _ _ ihbody ihrest =>
    rw [List.filter_cons, List.filter_append, List.filter_cons, hp x y hxy]
    cases p x with
    | true => exact .call hx hy hxy ihbody ihrest
    | false => exact ihbody.append ihrest

theorem Invocation.filter [DecidableEq τ] {thread : α → τ} {x y : α} {p : α → Bool}
    (h : Invocation C thread x l y) (hp : ∀ x y, C.fits x y → p y = p x) :
    Invocation C thread x (l.filter p) y where
  opens := h.opens
  closes := h.closes
  fits := h.fits
  same := h.same
  nested := by
    rw [List.filter_comm]
    exact h.nested.filter hp

/-- Calls seen otherwise. -/
theorem Balanced.map {β : Type} {D : Calls β} (f : α → β) (h : Balanced C l)
    (hopens : ∀ x, D.opens (f x) = C.opens x) (hfits : ∀ x y, C.fits x y → D.fits (f x) (f y)) :
    Balanced D (l.map f) := by
  induction h with
  | nil => exact .nil
  | @call x y body rest hx hy hxy _ _ ihbody ihrest =>
    rw [List.map_cons, List.map_append, List.map_cons]
    exact .call ((hopens x).trans hx) ((hopens y).trans hy) (hfits x y hxy) ihbody ihrest

/-! ## Active calls -/

variable (C) in
/-- How many calls are active after some events, if so many are before them. -/
def active (n : ℕ) (l : List α) : ℕ := l.foldl (fun n x => if C.opens x then n + 1 else n - 1) n

variable {x y : α} {p s : List α} {n : ℕ}

theorem active_append : active C n (l ++ s) = active C (active C n l) s := List.foldl_append

theorem active_opens (hx : C.opens x = true) : active C n (x :: l) = active C (n + 1) l := by
  rw [active, List.foldl_cons, if_pos hx]
  rfl

theorem active_closes (hx : C.opens x = false) : active C n (x :: l) = active C (n - 1) l := by
  rw [active, List.foldl_cons, if_neg (by rw [hx]; decide)]
  rfl

theorem active_le : active C n l ≤ n + l.length := by
  induction l generalizing n with
  | nil => exact Nat.le_refl n
  | cons x l ih =>
    rw [List.length_cons]
    cases hx : C.opens x with
    | true =>
      rw [active_opens hx]
      have hle := ih (n := n + 1)
      omega
    | false =>
      rw [active_closes hx]
      have hle := ih (n := n - 1)
      omega

/-- After calls, those before them are active. -/
theorem Balanced.active_eq (h : Balanced C l) (n : ℕ) : active C n l = n := by
  induction h generalizing n with
  | nil => rfl
  | call hx hy _ _ _ ihbody ihrest =>
    rw [active_opens hx, active_append, ihbody, active_closes hy, Nat.add_sub_cancel, ihrest]

/-- Within calls, what closes a call closes one of them. -/
theorem Balanced.lt_active (h : Balanced C l) (hl : l = p ++ y :: s) (hy : C.opens y = false) :
    n < active C n p := by
  induction h generalizing n p s with
  | nil => simp at hl
  | @call x y' body rest hx hy' _ hbody _ ihbody ihrest =>
    cases p with
    | nil =>
      obtain ⟨rfl, -⟩ := List.cons_eq_cons.1 hl
      rw [hx] at hy
      cases hy
    | cons a p =>
      obtain ⟨rfl, hrest⟩ := List.cons_eq_cons.1 hl
      rw [active_opens hx]
      rcases List.append_eq_append_iff.1 hrest with ⟨z, rfl, hz⟩ | ⟨z, rfl, hz⟩
      · rw [active_append, hbody.active_eq]
        cases z with
        | nil => exact Nat.lt_succ_self n
        | cons a z =>
          -- after the end of the call
          obtain ⟨rfl, hafter⟩ := List.cons_eq_cons.1 hz
          rw [active_closes hy', Nat.add_sub_cancel]
          exact ihrest hafter
      · cases z with
        | nil =>
          rw [List.append_nil] at hbody
          rw [hbody.active_eq]
          exact Nat.lt_succ_self n
        | cons a z =>
          -- inside the call
          obtain ⟨rfl, -⟩ := List.cons_eq_cons.1 hz
          exact Nat.lt_trans (Nat.lt_succ_self n) (ihbody rfl)

end Nesting
