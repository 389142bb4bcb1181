import Uatu.Foundations.Throwing

/-!
# Two computations in lockstep

`Lockstep x y s a S`: started in `s`, the computations `x` and `y` do the same, or `x` ends early,
with `a`, in a state that `S` relates to the one in which `y` returns. Below a first part that both
share it is enough to compare the rests (`lockstep_bind`), so the comparison of two programs follows
their text down to where they differ.
-/

namespace Throwing

variable {ε σ α β : Type}

/-- The computations do the same, or the first ends early with `a`. -/
def Lockstep (x y : EStateM ε σ α) (s : σ) (a : α) (S : σ → σ → Prop) : Prop :=
  x s = y s ∨ ∃ t, x s = .ok a t ∧ Post y s (fun _ u => S t u) fun _ _ => True

variable {x y : EStateM ε σ α} {f g : α → EStateM ε σ β} {s t : σ} {a : α} {b : β}
  {S : σ → σ → Prop}

theorem Lockstep.refl (x : EStateM ε σ α) (s : σ) (a : α) (S : σ → σ → Prop) :
    Lockstep x x s a S :=
  .inl rfl

/-- The first ends early. -/
theorem Lockstep.early (h : Post y s (fun _ u => S s u) fun _ _ => True) :
    Lockstep (pure a) y s a S :=
  .inr ⟨s, rfl, h⟩

/-- Below a first part that both share, the rests are compared. -/
theorem lockstep_bind
    (h : Post x s (fun c t => Lockstep (f c) (g c) t b S) fun _ _ => True) :
    Lockstep (x >>= f) (x >>= g) s b S := by
  cases hx : x s with
  | error e t => exact .inl (by rw [bind_error hx, bind_error hx])
  | ok c t =>
    rcases h.ok hx with heq | ⟨u, hu, hy⟩
    · exact .inl (by rw [bind_ok hx, bind_ok hx, heq])
    · exact .inr ⟨u, by rw [bind_ok hx, hu], by rwa [post_bind_of_ok hx]⟩

/-- Both take the same branch. -/
theorem lockstep_ite {c : Prop} [Decidable c] {x' y' : EStateM ε σ α}
    (h : c → Lockstep x y s a S) (h' : ¬ c → Lockstep x' y' s a S) :
    Lockstep (if c then x else x') (if c then y else y') s a S := by
  split_ifs with hc
  · exact h hc
  · exact h' hc

end Throwing
