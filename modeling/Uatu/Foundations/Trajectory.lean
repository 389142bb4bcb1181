import Mathlib.Data.List.Basic

/-!
# Trajectories of a labelled machine

A machine that acts on its state as labels say. `states` is the sequence of states it goes through
under a list of labels and `final` the last of them; `Shows` says of a log, a list of labels with
the state observed after each, that it is such a sequence. Logs are put together with
`Shows.append`, and what holds of every reachable state is proved by `Reachable.keeps`.
-/

namespace Trajectory

variable {σ ℓ : Type} (act : ℓ → σ → σ)

/-- The state after the labels. -/
def final (s : σ) (ls : List ℓ) : σ := ls.foldl (fun s l => act l s) s

/-- The state after each of the labels. -/
def states : σ → List ℓ → List σ
  | _, [] => []
  | s, l :: ls => act l s :: states (act l s) ls

/-- The log of an observer of the machine started in `s`. -/
def Shows (s : σ) (log : List (ℓ × σ)) : Prop :=
  log.map Prod.snd = states act s (log.map Prod.fst)

/-- The states the machine can come to. -/
inductive Reachable (s : σ) : σ → Prop
  | refl : Reachable s s
  | act {t : σ} (l : ℓ) (h : Reachable s t) : Reachable s (act l t)

variable {act} {s t : σ} {ls ls' : List ℓ} {log log' : List (ℓ × σ)}

@[simp] theorem final_nil : final act s [] = s := rfl

@[simp] theorem final_cons {l : ℓ} : final act s (l :: ls) = final act (act l s) ls := rfl

theorem final_append : final act s (ls ++ ls') = final act (final act s ls) ls' :=
  List.foldl_append

theorem states_append :
    states act s (ls ++ ls') = states act s ls ++ states act (final act s ls) ls' := by
  induction ls generalizing s with
  | nil => rfl
  | cons l ls ih => simp only [List.cons_append, states, ih, final_cons]

@[simp] theorem shows_nil : Shows act s [] := rfl

theorem shows_cons {l : ℓ} {t : σ} :
    Shows act s ((l, t) :: log) ↔ t = act l s ∧ Shows act (act l s) log := by
  simp [Shows, states]

theorem Shows.append (h : Shows act s log)
    (h' : Shows act (final act s (log.map Prod.fst)) log') : Shows act s (log ++ log') := by
  simp only [Shows, List.map_append, states_append] at *
  rw [h, h']

/-- What the start satisfies and every action keeps holds of every reachable state. -/
theorem Reachable.keeps {I : σ → Prop} (h : Reachable act s t) (hs : I s)
    (hact : ∀ l t, I t → I (act l t)) : I t := by
  induction h with
  | refl => exact hs
  | act l _ ih => exact hact l _ ih

end Trajectory
