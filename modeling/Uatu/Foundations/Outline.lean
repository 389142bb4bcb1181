import Uatu.Foundations.Separation

/-!
# Outlines

The outline of a tree lists its labels with their depths, a label before those below it. It tells
the tree (`outline_injective`).
-/

namespace Outline

open Separation

/-- A tree with labels. -/
inductive Rose (α : Type*)
  | node (label : α) (children : List (Rose α))

variable {α : Type*}

mutual

def outline : ℕ → Rose α → List (ℕ × α)
  | n, .node a children => (n, a) :: outlines (n + 1) children

/-- The outlines of several trees. -/
def outlines : ℕ → List (Rose α) → List (ℕ × α)
  | _, [] => []
  | n, t :: ts => outline n t ++ outlines n ts

end

theorem outlines_eq (n : ℕ) (ts : List (Rose α)) :
    outlines n ts = (ts.map (outline n)).flatten := by
  induction ts with
  | nil => rfl
  | cons t ts ih => rw [outlines, ih, List.map_cons, List.flatten_cons]

mutual

/-- Nothing is above the root. -/
theorem le_of_mem_outline {x : ℕ × α} : ∀ (t : Rose α) (n : ℕ), x ∈ outline n t → n ≤ x.1
  | .node a children, n, hx => by
    rcases List.mem_cons.1 hx with rfl | hx
    · exact le_rfl
    · exact (Nat.le_succ n).trans (le_of_mem_outlines children (n + 1) hx)

theorem le_of_mem_outlines {x : ℕ × α} : ∀ (ts : List (Rose α)) (n : ℕ), x ∈ outlines n ts → n ≤ x.1
  | [], n, hx => by cases hx
  | t :: ts, n, hx => by
    rcases List.mem_append.1 hx with hx | hx
    · exact le_of_mem_outline t n hx
    · exact le_of_mem_outlines ts n hx

end

/-- The root is the first of its depth, and the only one. -/
theorem headed_outline (n : ℕ) (t : Rose α) : Headed (fun x : ℕ × α => x.1 = n) (outline n t) := by
  obtain ⟨a, children⟩ := t
  refine ⟨(n, a), outlines (n + 1) children, rfl, rfl, fun x hx h => ?_⟩
  have hle := le_of_mem_outlines children (n + 1) hx
  omega

theorem headed_of_mem_map {n : ℕ} {ts : List (Rose α)} :
    ∀ l ∈ ts.map (outline n), Headed (fun x : ℕ × α => x.1 = n) l := by
  intro l hl
  obtain ⟨t, -, rfl⟩ := List.mem_map.1 hl
  exact headed_outline n t

mutual

/-- **An outline tells the tree.** -/
theorem outline_injective : ∀ (t t' : Rose α) (n : ℕ), outline n t = outline n t' → t = t'
  | .node a children, .node a' children', n, h => by
    rw [outline, outline, List.cons.injEq] at h
    rw [(Prod.mk.inj h.1).2, outlines_injective children children' (n + 1) h.2]

theorem outlines_injective :
    ∀ (ts ts' : List (Rose α)) (n : ℕ), outlines n ts = outlines n ts' → ts = ts'
  | ts, ts', n, h => by
    rw [outlines_eq, outlines_eq] at h
    have hmap := flatten_inj headed_of_mem_map headed_of_mem_map h
    cases ts with
    | nil => exact (List.map_eq_nil_iff.1 hmap.symm).symm
    | cons t ts =>
      obtain ⟨t', ts', rfl, ht, hts⟩ := List.map_eq_cons_iff.1 hmap.symm
      have hrest := outlines_injective ts ts' n (by rw [outlines_eq, outlines_eq, hts])
      rw [outline_injective t t' n ht.symm, hrest]

end

end Outline
