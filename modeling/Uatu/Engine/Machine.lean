import Uatu.Engine.Tracee
import Uatu.Foundations.Trajectory

/-!
# A tracee that executes code

The tracee of the engine may do anything while it runs. Here it is a machine on x86_64: it executes
instructions fetched at its program counter and receives signals, and an `INT3` there traps instead,
one byte on. `Machine.behaviour` is the machine as a tracee does what it does between two stops, and
`Machine.observed` what an observer sees it go through. `Machine.Fair` is what a program must not
do to its own text for breakpoints in it to go unnoticed.
-/

namespace Uatu

open ByteMemory Trajectory

/-- A machine state: registers and memory. -/
abbrev State := X86Regs × Mem

/-- What happens to a machine: `Ω` says of each instruction what the program does not determine. -/
inductive Event (Ω : Type)
  | op (ω : Ω)
  | signal (sig : Signal)

/-- A program on x86_64. -/
structure Machine (Ω : Type) where
  /-- Execute the instruction at the program counter. -/
  step : Ω → State → State
  deliver : Signal → State → State
  /-- The bytes of the instruction at the program counter. -/
  fetched : State → Addr → Prop

/-- The first byte of memory at the program counter is an `INT3`. -/
def State.AtTrap (σ : State) : Prop := σ.2 σ.1.rip = 0xCC

instance (σ : State) : Decidable σ.AtTrap := inferInstanceAs (Decidable (_ = _))

namespace Machine

variable {Ω : Type} (M : Machine Ω)

/-- The uninstrumented machine. -/
def act : Event Ω → State → State
  | .op ω => M.step ω
  | .signal sig => M.deliver sig

/-- Execute instructions up to the first `INT3`: the state, and whether there was one. -/
def exec : List Ω → State → State × Bool
  | [], σ => (σ, false)
  | ω :: ops, σ =>
    if σ.AtTrap then (({ σ.1 with rip := σ.1.rip + 1 }, σ.2), true) else exec ops (M.step ω σ)

/-- What is seen of `exec`, without the trap. -/
def execLog : List Ω → State → List (Event Ω × State)
  | [], _ => []
  | ω :: ops, σ =>
    if σ.AtTrap then [] else (.op ω, M.step ω σ) :: execLog ops (M.step ω σ)

/-- Run on with a signal (`0`: none). -/
def resumed (sig : Signal) (σ : State) : State := if sig = 0 then σ else M.deliver sig σ

/-- Run on with a signal, execute these instructions and stop for `cause`, or for an `INT3` on the
way. -/
def behaviour (ops : List Ω) (cause : Cause) : Behaviour X86Regs := fun sig m regs =>
  let e := M.exec ops (M.resumed sig (regs, m))
  ⟨e.1.2, e.1.1, some (if e.2 then .signal SIGTRAP else cause)⟩

/-- What is seen of `behaviour`. -/
def observed (ops : List Ω) (sig : Signal) (σ : State) : List (Event Ω × State) :=
  if sig = 0 then M.execLog ops σ
  else (.signal sig, M.deliver sig σ) :: M.execLog ops (M.deliver sig σ)

variable (text : Addr → Prop) (entry : Addr) (σ₀ : State)

/-- An address at which a breakpoint may come to be planted: the entry of the function, and the
return addresses it is called with. -/
inductive Breakpoint : Addr → Prop
  | entry : Breakpoint entry
  | ret {σ : State} (h : Reachable M.act σ₀ σ) (hip : σ.1.rip = entry) :
    Breakpoint (readWord σ.2 σ.1.rsp)

/-- From `σ` the action reads no byte of the text but the given ones, and writes none. -/
structure SparesText (fetched : Addr → Prop) (f : State → State) (σ : State) : Prop where
  regs : ∀ m, (∀ x, (text x → fetched x) → m x = σ.2 x) → (f (σ.1, m)).1 = (f σ).1
  data : ∀ m, (∀ x, (text x → fetched x) → m x = σ.2 x) → ∀ x, ¬ text x →
    (f (σ.1, m)).2 x = (f σ).2 x
  text : ∀ m, (∀ x, (text x → fetched x) → m x = σ.2 x) → ∀ x, text x → (f (σ.1, m)).2 x = m x

/-- A program that fetches instructions from its text, and neither reads nor writes it otherwise;
that executes no `INT3` of its own; and that reaches a byte at which a breakpoint may be planted,
which is in the text, only as the start of an instruction. -/
structure Fair : Prop where
  step : ∀ {σ}, Reachable M.act σ₀ σ → ∀ ω, SparesText text (M.fetched σ) (M.step ω) σ
  deliver : ∀ {σ}, Reachable M.act σ₀ σ → ∀ sig, SparesText text (fun _ => False) (M.deliver sig) σ
  trap : ∀ {σ}, Reachable M.act σ₀ σ → ¬ σ.AtTrap
  planted : ∀ {a}, M.Breakpoint entry σ₀ a → text a
  start : ∀ {σ}, Reachable M.act σ₀ σ → ∀ {a}, M.Breakpoint entry σ₀ a → M.fetched σ a →
    σ.1.rip = a

/-- The program does not write to the words at the breakpoints. It may read what of them is
data. -/
def SparesWords : Prop := ∀ {σ}, Reachable M.act σ₀ σ → ∀ (e : Event Ω) {a},
  M.Breakpoint entry σ₀ a → ∀ x, InWord a x → (M.act e σ).2 x = σ.2 x

variable {M text entry σ₀} {p : Addr × Word} {σ τ : State} {ops : List Ω} {sig : Signal}

/-- The instrumented state shows the state with the breakpoint `p` planted: the address, and the
word saved there. -/
structure Shadows (M : Machine Ω) (entry : Addr) (σ₀ : State) (p : Addr × Word) (τ σ : State) :
    Prop where
  regs : τ.1 = σ.1
  mem : τ.2 = Function.update σ.2 p.1 0xCC
  word : p.2 = readWord σ.2 p.1
  reachable : Reachable M.act σ₀ σ
  point : M.Breakpoint entry σ₀ p.1

/-- A state with the planted byte replaced by the original. -/
def unplant (p : Addr × Word) (τ : State) : State := (τ.1, Function.update τ.2 p.1 (byte p.2 0))

theorem Shadows.unplant (h : M.Shadows entry σ₀ p τ σ) : unplant p τ = σ := by
  refine Prod.ext h.regs ?_
  rw [Machine.unplant, h.mem, Function.update_idem, h.word, byte_readWord_zero,
    Function.update_eq_self]

theorem Shadows.atTrap (hF : M.Fair text entry σ₀) (h : M.Shadows entry σ₀ p τ σ) :
    τ.AtTrap ↔ σ.1.rip = p.1 := by
  rw [State.AtTrap, h.mem, h.regs]
  by_cases hip : σ.1.rip = p.1
  · simp [hip]
  · rw [Function.update_of_ne hip]
    exact ⟨fun ht => (hF.trap h.reachable ht).elim, fun h => (hip h).elim⟩

/-- An action that spares the text does the same with a breakpoint planted where it does not
read. -/
theorem Shadows.action {f : State → State} {e : Event Ω} {fetched : Addr → Prop}
    (hf : M.act e = f) (hS : SparesText text fetched f σ) (hW : M.SparesWords entry σ₀)
    (hpoint : text p.1) (h : M.Shadows entry σ₀ p τ σ) (hp : ¬ fetched p.1) :
    M.Shadows entry σ₀ p (f τ) (f σ) := by
  have hτ : τ = (σ.1, Function.update σ.2 p.1 0xCC) := Prod.ext h.regs h.mem
  have hagree : ∀ x, (text x → fetched x) → Function.update σ.2 p.1 0xCC x = σ.2 x := by
    intro x hx
    refine Function.update_of_ne ?_ _ _
    rintro rfl
    exact hp (hx hpoint)
  have hsame : ∀ x, text x → (f σ).2 x = σ.2 x := hS.text σ.2 fun _ _ => rfl
  refine ⟨hτ ▸ hS.regs _ hagree, ?_, ?_, hf ▸ h.reachable.act e, h.point⟩
  · funext x
    rw [hτ]
    by_cases hx : text x
    · rw [hS.text _ hagree x hx]
      by_cases hxp : x = p.1
      · rw [hxp, Function.update_self, Function.update_self]
      · rw [Function.update_of_ne hxp, Function.update_of_ne hxp, hsame x hx]
    · rw [hS.data _ hagree x hx, Function.update_of_ne]
      rintro rfl
      exact hx hpoint
  · rw [h.word, ← hf]
    exact readWord_congr_inWord fun x hx => (hW h.reachable e h.point x hx).symm

theorem Shadows.deliver (hF : M.Fair text entry σ₀) (hW : M.SparesWords entry σ₀)
    (h : M.Shadows entry σ₀ p τ σ) (sig : Signal) :
    M.Shadows entry σ₀ p (M.deliver sig τ) (M.deliver sig σ) :=
  h.action (e := .signal sig) rfl (hF.deliver h.reachable sig) hW (hF.planted h.point) id

theorem Shadows.step (hF : M.Fair text entry σ₀) (hW : M.SparesWords entry σ₀)
    (h : M.Shadows entry σ₀ p τ σ) (hip : σ.1.rip ≠ p.1) (ω : Ω) :
    M.Shadows entry σ₀ p (M.step ω τ) (M.step ω σ) :=
  h.action (e := .op ω) rfl (hF.step h.reachable ω) hW (hF.planted h.point) fun hp =>
    hip (hF.start h.reachable h.point hp)

/-- A log with planted bytes replaced by the originals. -/
def viewed (p : Addr × Word) (log : List (Event Ω × State)) : List (Event Ω × State) :=
  log.map fun l => (l.1, unplant p l.2)

@[simp] theorem map_fst_viewed (log : List (Event Ω × State)) :
    (viewed p log).map Prod.fst = log.map Prod.fst := by
  simp [viewed]

/-- Where `exec` ends: it shows a state of the uninstrumented machine, or, after a trap, is past a
breakpoint that such a state is at. -/
def Ends (M : Machine Ω) (entry : Addr) (σ₀ : State) (p : Addr × Word) (e : State × Bool)
    (σ : State) : Prop :=
  if e.2 then σ.1.rip = p.1 ∧
    ∃ τ, M.Shadows entry σ₀ p τ σ ∧ e.1 = ({ τ.1 with rip := p.1 + 1 }, τ.2)
  else M.Shadows entry σ₀ p e.1 σ

/-- Executing instructions under a breakpoint goes through the states of the uninstrumented
machine. -/
theorem exec_shadows (hF : M.Fair text entry σ₀) (hW : M.SparesWords entry σ₀)
    (h : M.Shadows entry σ₀ p τ σ) :
    Shows M.act σ (viewed p (M.execLog ops τ)) ∧
      M.Ends entry σ₀ p (M.exec ops τ) (final M.act σ ((M.execLog ops τ).map Prod.fst)) := by
  induction ops generalizing τ σ with
  | nil => exact ⟨shows_nil, h⟩
  | cons ω ops ih =>
    unfold exec execLog
    by_cases ht : τ.AtTrap
    · have hip : σ.1.rip = p.1 := (h.atTrap hF).1 ht
      simp only [if_pos ht]
      refine ⟨shows_nil, hip, τ, h, ?_⟩
      rw [h.regs, hip]
    · have hstep := h.step hF hW (fun hip => ht ((h.atTrap hF).2 hip)) ω
      obtain ⟨hshows, hends⟩ := ih hstep
      simp only [if_neg ht]
      exact ⟨shows_cons.2 ⟨hstep.unplant, hshows⟩, hends⟩

/-- So does a machine that is resumed with a signal. -/
theorem observed_shadows (hF : M.Fair text entry σ₀) (hW : M.SparesWords entry σ₀)
    (h : M.Shadows entry σ₀ p τ σ) (ops : List Ω) (sig : Signal) :
    Shows M.act σ (viewed p (M.observed ops sig τ)) ∧
      M.Ends entry σ₀ p (M.exec ops (M.resumed sig τ))
        (final M.act σ ((M.observed ops sig τ).map Prod.fst)) := by
  unfold observed resumed
  split_ifs with hsig
  · exact exec_shadows hF hW h
  · have hd := h.deliver hF hW sig
    obtain ⟨hshows, hends⟩ := exec_shadows hF hW hd
    exact ⟨shows_cons.2 ⟨hd.unplant, hshows⟩, hends⟩

end Machine

end Uatu
