import Mathlib.Data.List.Induction
import Mathlib.Tactic.Tauto
import Mathlib.Tactic.SplitIfs

/-!
# Resources that are acquired and released

A log of acquisitions and releases, and which resources it leaves in use. While things are only
acquired, a log is `Fresh`: what is in use was acquired once, and nothing else was. From then on it
is `Tidy`: what is no longer in use was released once.
-/

namespace Lifetimes

variable {ρ : Type} [DecidableEq ρ]

inductive Move (ρ : Type)
  | acquire (r : ρ)
  | release (r : ρ)
  deriving DecidableEq

def Move.resource : Move ρ → ρ
  | .acquire r => r
  | .release r => r

/-- What happens to one resource. -/
def life (r : ρ) (l : List (Move ρ)) : List (Move ρ) := l.filter (·.resource = r)

/-- The resources in use have been acquired, and nothing else has happened. -/
def Fresh (held : ρ → Prop) (l : List (Move ρ)) : Prop :=
  ∀ r, (held r → life r l = [.acquire r]) ∧ (¬ held r → life r l = [])

/-- What has been acquired is in use or released. -/
def Tidy (held : ρ → Prop) (l : List (Move ρ)) : Prop :=
  ∀ r, (held r → life r l = [.acquire r]) ∧
    (¬ held r → life r l = [] ∨ life r l = [.acquire r, .release r])

variable {held held' : ρ → Prop} {l : List (Move ρ)} {r : ρ}

@[simp] theorem life_nil : life r [] = [] := rfl

@[simp] theorem life_append (l' : List (Move ρ)) : life r (l ++ l') = life r l ++ life r l' :=
  List.filter_append ..

theorem life_acquire (x : ρ) : life r [.acquire x] = if x = r then [.acquire x] else [] := by
  by_cases h : x = r <;> simp [life, Move.resource, h]

theorem life_release (x : ρ) : life r [.release x] = if x = r then [.release x] else [] := by
  by_cases h : x = r <;> simp [life, Move.resource, h]

theorem fresh_nil (h : ∀ r, ¬ held r) : Fresh held [] :=
  fun r => ⟨fun hr => absurd hr (h r), fun _ => rfl⟩

theorem Fresh.congr (h : Fresh held l) (hheld : ∀ r, held' r ↔ held r) : Fresh held' l := by
  intro r
  rw [hheld r]
  exact h r

theorem Tidy.congr (h : Tidy held l) (hheld : ∀ r, held' r ↔ held r) : Tidy held' l := by
  intro r
  rw [hheld r]
  exact h r

theorem Fresh.tidy (h : Fresh held l) : Tidy held l := fun r =>
  ⟨(h r).1, fun hr => .inl ((h r).2 hr)⟩

/-- One more resource is acquired. -/
theorem Fresh.acquire (h : Fresh held l) (hr : ¬ held r) :
    Fresh (fun x => x = r ∨ held x) (l ++ [.acquire r]) := by
  intro x
  rw [life_append, life_acquire]
  by_cases hx : r = x
  · subst hx
    rw [(h r).2 hr, if_pos rfl]
    exact ⟨fun _ => rfl, fun hn => absurd (.inl rfl) hn⟩
  · rw [if_neg hx, List.append_nil]
    exact ⟨fun hheld => (h x).1 (hheld.resolve_left (Ne.symm hx)),
      fun hn => (h x).2 fun hheld => hn (.inr hheld)⟩

/-- A resource in use is released. -/
theorem Tidy.release (h : Tidy held l) (hr : held r) :
    Tidy (fun x => x ≠ r ∧ held x) (l ++ [.release r]) := by
  intro x
  rw [life_append, life_release]
  by_cases hx : r = x
  · subst hx
    rw [(h r).1 hr, if_pos rfl]
    exact ⟨fun hheld => absurd rfl hheld.1, fun _ => .inr rfl⟩
  · rw [if_neg hx, List.append_nil]
    exact ⟨fun hheld => (h x).1 hheld.2, fun hn => (h x).2 fun hheld => hn ⟨Ne.symm hx, hheld⟩⟩

/-- Several resources are acquired. -/
theorem Fresh.acquireAll {rs : List ρ} (h : Fresh held l) (hnodup : rs.Nodup)
    (hrs : ∀ r ∈ rs, ¬ held r) :
    Fresh (fun x => x ∈ rs ∨ held x) (l ++ rs.map .acquire) := by
  induction rs using List.reverseRecOn with
  | nil => simpa using h
  | append_singleton rs r ih =>
    obtain ⟨hrs', -, hdisj⟩ := List.nodup_append.1 hnodup
    have ih := ih hrs' fun x hx => hrs x (List.mem_append_left _ hx)
    have hr : ¬ (r ∈ rs ∨ held r) := by
      rintro (hmem | hheld)
      · exact hdisj r hmem r (List.mem_singleton_self r) rfl
      · exact hrs r (by simp) hheld
    rw [List.map_append, List.map_singleton, ← List.append_assoc]
    refine (ih.acquire hr).congr fun x => ?_
    rw [List.mem_append, List.mem_singleton]
    tauto

/-- Several resources in use are released. -/
theorem Tidy.releaseAll {rs : List ρ} (h : Tidy held l) (hnodup : rs.Nodup)
    (hrs : ∀ r ∈ rs, held r) :
    Tidy (fun x => x ∉ rs ∧ held x) (l ++ rs.map .release) := by
  induction rs using List.reverseRecOn with
  | nil => simpa using h
  | append_singleton rs r ih =>
    obtain ⟨hrs', -, hdisj⟩ := List.nodup_append.1 hnodup
    have ih := ih hrs' fun x hx => hrs x (List.mem_append_left _ hx)
    have hr : r ∉ rs := fun hmem => hdisj r hmem r (List.mem_singleton_self r) rfl
    rw [List.map_append, List.map_singleton, ← List.append_assoc]
    refine (ih.release ⟨hr, hrs r (by simp)⟩).congr fun x => ?_
    rw [List.mem_append, List.mem_singleton]
    tauto

end Lifetimes
