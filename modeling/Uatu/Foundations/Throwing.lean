import Mathlib.Logic.Basic
import Mathlib.Tactic.SplitIfs

/-!
# Computations that throw and keep their state

In `EStateM ε σ α` a computation that throws leaves the state as it was at the throw, as a C++
function does: nothing is rolled back. `Post x s Q E` is the pair of postconditions of `x` started
in `s`: `Q` if it returns, `E` if it throws. The rules below compute it for each way of building a
computation, so a proof about a program is one rule for each of its lines; `Post.ok` and
`Post.error` read the result of a run off it.
-/

namespace Throwing

variable {ε σ α β : Type}

/-- Started in `s`, the computation returns with `Q` or throws with `E`. -/
def Post (x : EStateM ε σ α) (s : σ) (Q : α → σ → Prop) (E : ε → σ → Prop) : Prop :=
  match x s with
  | .ok a s' => Q a s'
  | .error e s' => E e s'

variable {x : EStateM ε σ α} {f : α → EStateM ε σ β} {s s' : σ} {Q Q' : α → σ → Prop}
  {E E' : ε → σ → Prop} {R : β → σ → Prop}

theorem Post.ok (h : Post x s Q E) {a : α} (hx : x s = .ok a s') : Q a s' := by
  rw [Post, hx] at h
  exact h

theorem Post.error (h : Post x s Q E) {e : ε} (hx : x s = .error e s') : E e s' := by
  rw [Post, hx] at h
  exact h

theorem post_of_ok {a : α} (hx : x s = .ok a s') (h : Q a s') : Post x s Q E := by
  rw [Post, hx]
  exact h

/-- Weaker postconditions. -/
theorem Post.mono (h : Post x s Q E) (hQ : ∀ a s', Q a s' → Q' a s')
    (hE : ∀ e s', E e s' → E' e s') : Post x s Q' E' := by
  unfold Post at h ⊢
  split at h
  · exact hQ _ _ h
  · exact hE _ _ h

/-- Two postconditions at once. -/
theorem Post.and (h : Post x s Q E) (h' : Post x s Q' E') :
    Post x s (fun a t => Q a t ∧ Q' a t) (fun e t => E e t ∧ E' e t) := by
  unfold Post at h h' ⊢
  split at h
  next hx => rw [hx] at h'; exact ⟨h, h'⟩
  next hx => rw [hx] at h'; exact ⟨h, h'⟩

/-- One postcondition for each member of a family. -/
theorem Post.forall {ι : Sort*} {P : ι → α → σ → Prop} (h : Post x s Q E)
    (hP : ∀ i, Post x s (P i) fun _ _ => True) :
    Post x s (fun a t => Q a t ∧ ∀ i, P i a t) E := by
  unfold Post at h ⊢
  split at h
  next a t hx => exact ⟨h, fun i => (hP i).ok hx⟩
  · exact h

/-- The state a computation ends in, whether it returns or throws. -/
def finalState (x : EStateM ε σ α) (s : σ) : σ :=
  match x s with
  | .ok _ t => t
  | .error _ t => t

theorem finalState_ok {a : α} (hx : x s = .ok a s') : finalState x s = s' := by
  rw [finalState, hx]

theorem finalState_error {e : ε} (hx : x s = .error e s') : finalState x s = s' := by
  rw [finalState, hx]

/-- The final state, read off the two postconditions. -/
theorem post_finalState {P : σ → Prop} :
    Post x s (fun _ t => P t) (fun _ t => P t) ↔ P (finalState x s) := by
  unfold Post finalState
  cases x s <;> rfl

/-! ## The rules -/

@[simp] theorem post_pure {a : α} : Post (pure a) s Q E ↔ Q a s := Iff.rfl

@[simp] theorem post_throw {e : ε} : Post (throw e : EStateM ε σ α) s Q E ↔ E e s := Iff.rfl

@[simp] theorem post_bind :
    Post (x >>= f) s R E ↔ Post x s (fun a t => Post (f a) t R E) E := by
  simp only [Post, bind, EStateM.bind]
  cases x s <;> rfl

@[simp] theorem post_map {g : α → β} :
    Post (g <$> x) s R E ↔ Post x s (fun a t => R (g a) t) E := by
  simp only [Post, Functor.map, EStateM.map]
  cases x s <;> rfl

@[simp] theorem post_get {Q : σ → σ → Prop} : Post (get : EStateM ε σ σ) s Q E ↔ Q s s := Iff.rfl

@[simp] theorem post_modify {g : σ → σ} {Q : PUnit → σ → Prop} :
    Post (modify g : EStateM ε σ PUnit) s Q E ↔ Q ⟨⟩ (g s) := Iff.rfl

@[simp] theorem post_ite {c : Prop} [Decidable c] {y : EStateM ε σ α} :
    Post (if c then x else y) s Q E ↔ (c → Post x s Q E) ∧ (¬ c → Post y s Q E) := by
  split_ifs with h <;> simp [h]

/-- A handler runs from the state the throw left. -/
theorem post_tryCatch {g : ε → EStateM ε σ α} :
    Post (tryCatch x g) s Q E ↔ Post x s Q (fun e t => Post (g e) t Q E) := by
  simp only [Post, tryCatch, tryCatchThe, MonadExceptOf.tryCatch, EStateM.tryCatch]
  cases x s <;> rfl

/-! ## Runs that return, runs that throw -/

theorem bind_ok {a : α} (h : x s = .ok a s') : (x >>= f) s = f a s' := by
  simp only [bind, EStateM.bind, h]

theorem bind_error {e : ε} (h : x s = .error e s') : (x >>= f) s = .error e s' := by
  simp only [bind, EStateM.bind, h]

/-- A sequence returns only if both of its parts do. -/
theorem bind_eq_ok {b : β} {t : σ} (h : (x >>= f) s = .ok b t) :
    ∃ a s', x s = .ok a s' ∧ f a s' = .ok b t := by
  simp only [bind, EStateM.bind] at h
  cases hx : x s with
  | ok a s' => exact ⟨a, s', rfl, by simpa only [hx] using h⟩
  | error e s' => simp only [hx] at h; cases h

/-- Past a part that returns, only the rest of a sequence matters. -/
theorem post_bind_of_ok {a : α} (h : x s = .ok a s') :
    Post (x >>= f) s R E ↔ Post (f a) s' R E := by
  unfold Post
  rw [bind_ok h]

/-- Computations with the same result have the same postconditions. -/
theorem post_congr {y : EStateM ε σ α} (h : x s = y s') : Post x s Q E ↔ Post y s' Q E := by
  unfold Post
  rw [h]

/-- A computation with the postconditions of another has the same result. -/
theorem eq_of_post {y : EStateM ε σ α} {t : σ} (h : ∀ Q E, Post y t Q E → Post x s Q E) :
    x s = y t := by
  have hself := h (fun a u => y t = .ok a u) (fun e u => y t = .error e u)
    (by unfold Post; split <;> assumption)
  unfold Post at hself
  split at hself
  next hx => rw [hx, hself]
  next hx => rw [hx, hself]

/-! ## Whether a computation returns -/

/-- The computation does not throw. -/
def Returns (x : EStateM ε σ α) (s : σ) : Prop := ∃ a t, x s = .ok a t

theorem returns_of_ok {a : α} {t : σ} (h : x s = .ok a t) : Returns x s := ⟨a, t, h⟩

theorem not_returns_of_error {e : ε} {t : σ} (h : x s = .error e t) : ¬ Returns x s := by
  rintro ⟨a, t', hok⟩
  cases h.symm.trans hok

theorem error_of_not_returns (h : ¬ Returns x s) : ∃ e t, x s = .error e t := by
  cases hx : x s with
  | ok a t => exact absurd (returns_of_ok hx) h
  | error e t => exact ⟨e, t, rfl⟩

/-- What holds of a computation that does not throw. -/
theorem Post.exists_ok (h : Post x s Q fun _ _ => False) : ∃ a t, x s = .ok a t ∧ Q a t := by
  unfold Post at h
  split at h
  next a t hx => exact ⟨a, t, hx, h⟩
  · exact h.elim

theorem returns_pure (a : α) (s : σ) : Returns (pure a : EStateM ε σ α) s := ⟨a, s, rfl⟩

theorem not_returns_throw {e : ε} : ¬ Returns (throw e : EStateM ε σ α) s :=
  not_returns_of_error rfl

theorem returns_iff_post : Returns x s ↔ Post x s (fun _ _ => True) fun _ _ => False := by
  unfold Returns Post
  cases x s with
  | ok a t => exact ⟨fun _ => trivial, fun _ => ⟨a, t, rfl⟩⟩
  | error e t =>
    refine ⟨?_, False.elim⟩
    rintro ⟨_, _, h⟩
    cases h

/-- The first part returns, and then the second. -/
theorem returns_bind :
    Returns (x >>= f) s ↔ Post x s (fun a t => Returns (f a) t) fun _ _ => False := by
  rw [returns_iff_post, post_bind]
  simp only [returns_iff_post]

/-- Past a part that returns, it depends on the rest. -/
theorem returns_bind_of_ok {a : α} {t : σ} (h : x s = .ok a t) :
    Returns (x >>= f) s ↔ Returns (f a) t := by
  unfold Returns
  rw [bind_ok h]

theorem returns_bind_modify {g : σ → σ} {k : PUnit → EStateM ε σ β} :
    Returns (modify g >>= k) s ↔ Returns (k ⟨⟩) (g s) :=
  returns_bind_of_ok rfl

/-- A result that is only rewritten. -/
theorem returns_bind_pure {g : α → β} :
    Returns (do let a ← x; return g a) s ↔ Returns x s := by
  rw [returns_bind, returns_iff_post]
  exact ⟨fun hx => hx.mono (fun _ _ _ => trivial) fun _ _ h => h,
    fun hx => hx.mono (fun a t _ => returns_pure (g a) t) fun _ _ h => h⟩

/-- Before a rest that always returns, it depends on the first part. -/
theorem returns_bind_of_forall (h : ∀ a t, Returns (f a) t) :
    Returns (x >>= f) s ↔ Returns x s := by
  rw [returns_bind, returns_iff_post]
  exact ⟨fun hx => hx.mono (fun _ _ _ => trivial) fun _ _ h => h,
    fun hx => hx.mono (fun a t _ => h a t) fun _ _ h => h⟩

theorem not_returns_bind (h : ¬ Returns x s) : ¬ Returns (x >>= f) s := by
  obtain ⟨e, t, hx⟩ := error_of_not_returns h
  exact not_returns_of_error (bind_error hx)

/-- It returns, or its handler does. -/
theorem returns_tryCatch {g : ε → EStateM ε σ α} :
    Returns (tryCatch x g) s ↔ Returns x s ∨ ∃ e t, x s = .error e t ∧ Returns (g e) t := by
  unfold Returns
  simp only [tryCatch, tryCatchThe, MonadExceptOf.tryCatch, EStateM.tryCatch]
  cases x s with
  | ok a t => exact ⟨fun _ => .inl ⟨a, t, rfl⟩, fun _ => ⟨a, t, rfl⟩⟩
  | error e t =>
    constructor
    · exact fun h => .inr ⟨e, t, rfl, h⟩
    · rintro (⟨_, _, h⟩ | ⟨e', t', h, hg⟩)
      · cases h
      · cases h
        exact hg

end Throwing
