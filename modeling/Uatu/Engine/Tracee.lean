import Uatu.Platform.Arch

/-!
# The tracee under `ptrace`

What the engine's `ptrace` and `waitpid` calls act on: the memory and the registers of one thread,
and whether it runs, is in a ptrace-stop or has exited. Between a resume and the next report of
`waitpid` a tracee may do anything, so its doings are a parameter: a `Behaviour` says, from the
signal it was resumed with and its memory and registers, how it leaves them and why it stopped.

A ptrace-stop has a `Cause`: the `SIGSTOP` that `PTRACE_ATTACH` generated, another signal about to
be delivered, or a group-stop. `waitpid` shows the signal number only (`WSTOPSIG`), so the engine
cannot tell them apart. A signal number given to the request that resumes the tracee is injected in
a signal-delivery-stop and ignored in a group-stop.
-/

namespace Uatu

open ByteMemory

/-- The memory of a tracee. -/
abbrev Mem := Memory 64

/-- A signal number. -/
abbrev Signal := ℕ

def SIGTRAP : Signal := 5

def SIGSTOP : Signal := 19

/-- Why a tracee is in a ptrace-stop. -/
inductive Cause
  /-- Delivery of the `SIGSTOP` that `PTRACE_ATTACH` generated. -/
  | attach
  /-- Delivery of any other signal. -/
  | signal (sig : Signal)
  /-- A group-stop, shown with the stopping signal. -/
  | group (sig : Signal)
  deriving DecidableEq

/-- `WSTOPSIG` of the status `waitpid` reports for a stop. -/
def Cause.stopSig : Cause → Signal
  | .attach => SIGSTOP
  | .signal sig => sig
  | .group sig => sig

/-- What is delivered when a tracee is resumed with `sig` (`0`: no signal) from a stop. -/
def Cause.inject (sig : Signal) : Cause → List Cause
  | .attach => if sig = 0 then [] else if sig = SIGSTOP then [.attach] else [.signal sig]
  | .signal _ => if sig = 0 then [] else [.signal sig]
  | .group _ => []

/-- The signal a tracee runs on with when it is resumed with `sig` from a stop. -/
def Cause.effective (sig : Signal) : Cause → Signal
  | .group _ => 0
  | _ => sig

/-- The state of the traced thread. -/
inductive Status
  /-- Running, resumed with this signal (`0`: no signal). -/
  | running (sig : Signal)
  | stopped (c : Cause)
  | exited
  deriving DecidableEq

/-- How a resumed tracee is found: memory, registers, and why it stopped (`none`: it exited). -/
structure Report (R : Type) where
  mem : Mem
  regs : R
  stop : Option Cause

/-- What a resumed tracee does until there is something to report about it. -/
abbrev Behaviour (R : Type) := Signal → Mem → R → Report R

/-- The behaviour never writes the byte at `x`. -/
def Behaviour.Keeps {R : Type} (b : Behaviour R) (x : Addr) : Prop :=
  ∀ sig m r, (b sig m r).mem x = m x

/-- A tracee, and the signals reported by `waitpid` and delivered to it since the attach. -/
structure Tracee (R : Type) where
  mem : Mem
  regs : R
  status : Status
  /-- Attached, and not yet detached. -/
  traced : Bool
  /-- The `SIGSTOP` of the attach has been generated, and no ptrace-stop has dequeued it. -/
  attachPending : Bool
  reported : List Cause
  delivered : List Cause

namespace Tracee

variable {R : Type}

/-- The tracee is in a ptrace-stop, the one state in which `ptrace` requests succeed. -/
def isStopped (t : Tracee R) : Bool :=
  match t.status with
  | .stopped _ => true
  | _ => false

/-- The attach generates one `SIGSTOP`: a second one is a signal like any other. -/
def causeOf (t : Tracee R) : Cause → Cause
  | .attach => if t.attachPending then .attach else .signal SIGSTOP
  | c => c

/-- A running tracee runs until it stops or exits. -/
def advance (b : Behaviour R) (t : Tracee R) : Tracee R :=
  match t.status with
  | .running sig =>
    match (b sig t.mem t.regs).stop with
    | none =>
      { t with
        mem := (b sig t.mem t.regs).mem
        regs := (b sig t.mem t.regs).regs
        status := .exited }
    | some c =>
      { t with
        mem := (b sig t.mem t.regs).mem
        regs := (b sig t.mem t.regs).regs
        status := .stopped (t.causeOf c)
        attachPending := t.attachPending && t.causeOf c != .attach }
  | _ => t

/-- `PTRACE_ATTACH`: the tracee runs until it dequeues a signal. -/
def attach (t : Tracee R) : Tracee R :=
  { t with traced := true, attachPending := true }

/-- `PTRACE_CONT` of a stopped tracee with a signal number. -/
def cont (sig : Signal) (t : Tracee R) : Tracee R :=
  match t.status with
  | .stopped c =>
    { t with status := .running (c.effective sig), delivered := t.delivered ++ c.inject sig }
  | _ => t

/-- `PTRACE_DETACH` of a stopped tracee: it runs on untraced, and a pending `SIGSTOP` of the attach
is delivered to it. -/
def detach (t : Tracee R) : Tracee R :=
  { t with
    status := .running 0
    traced := false
    delivered := t.delivered ++ if t.attachPending then [.attach] else [] }

/-- `waitpid` reports the stop the tracee is in. -/
def report (t : Tracee R) : Tracee R :=
  match t.status with
  | .stopped c => { t with reported := t.reported ++ [c] }
  | _ => t

variable (t : Tracee R) (sig : Signal) (b : Behaviour R)

@[simp] theorem attach_mem : t.attach.mem = t.mem := rfl
@[simp] theorem attach_traced : t.attach.traced = true := rfl
@[simp] theorem attach_status : t.attach.status = t.status := rfl
@[simp] theorem detach_mem : t.detach.mem = t.mem := rfl
@[simp] theorem detach_regs : t.detach.regs = t.regs := rfl
@[simp] theorem detach_traced : t.detach.traced = false := rfl

@[simp] theorem cont_mem : (t.cont sig).mem = t.mem := by unfold cont; split <;> rfl

@[simp] theorem cont_regs : (t.cont sig).regs = t.regs := by unfold cont; split <;> rfl

@[simp] theorem cont_traced : (t.cont sig).traced = t.traced := by unfold cont; split <;> rfl

@[simp] theorem report_mem : t.report.mem = t.mem := by unfold report; split <;> rfl

@[simp] theorem report_regs : t.report.regs = t.regs := by unfold report; split <;> rfl

@[simp] theorem report_status : t.report.status = t.status := by unfold report; split <;> rfl

@[simp] theorem report_traced : t.report.traced = t.traced := by unfold report; split <;> rfl

@[simp] theorem advance_traced : (t.advance b).traced = t.traced := by
  unfold advance
  split
  · split <;> rfl
  · rfl

variable {b} in
/-- What a behaviour keeps is kept. -/
theorem advance_mem {x : Addr} (hb : b.Keeps x) : (t.advance b).mem x = t.mem x := by
  unfold advance
  split
  · split <;> exact hb _ _ _
  · rfl

/-- A running tracee that has been waited for is in a ptrace-stop or has exited. -/
theorem advance_status (h : t.status = .running sig) :
    (t.advance b).isStopped ∨ (t.advance b).status = .exited := by
  simp only [advance, h]
  split
  · exact .inr rfl
  · exact .inl rfl

@[simp] theorem report_isStopped : t.report.isStopped = t.isStopped := by
  rw [isStopped, report_status, isStopped]

/-! The signals are followed by `reported`, `delivered` and `attachPending`. -/

theorem advance_reported : (t.advance b).reported = t.reported := by
  unfold advance
  split
  · split <;> rfl
  · rfl

theorem advance_delivered : (t.advance b).delivered = t.delivered := by
  unfold advance
  split
  · split <;> rfl
  · rfl

@[simp] theorem report_delivered : t.report.delivered = t.delivered := by
  unfold report; split <;> rfl

@[simp] theorem cont_reported : (t.cont sig).reported = t.reported := by
  unfold cont; split <;> rfl

/-- Resuming without a signal delivers nothing. -/
theorem cont_zero_delivered : (t.cont 0).delivered = t.delivered := by
  unfold cont
  split
  next c _ => cases c <;> simp [Cause.inject]
  · rfl

variable {t sig b}

theorem cont_delivered {c : Cause} (h : t.status = .stopped c) :
    (t.cont sig).delivered = t.delivered ++ c.inject sig := by
  simp only [cont, h]

theorem report_reported {c : Cause} (h : t.status = .stopped c) :
    t.report.reported = t.reported ++ [c] := by
  simp only [report, h]

theorem report_reported_of_exited (h : t.status = .exited) : t.report.reported = t.reported := by
  simp only [report, h]

/-- A resumed tracee stops for what its behaviour says, with a second `SIGSTOP` of the attach taken
for the signal it then is. -/
theorem advance_stopped {c : Cause} (h : t.status = .running sig)
    (hc : (t.advance b).status = .stopped c) :
    ∃ c', (b sig t.mem t.regs).stop = some c' ∧ c = t.causeOf c' := by
  simp only [advance, h] at hc
  split at hc
  · cases hc
  next c' hc' => exact ⟨c', hc', by simpa using hc.symm⟩

theorem causeOf_stopSig (c : Cause) : (t.causeOf c).stopSig = c.stopSig := by
  cases c with
  | attach => unfold causeOf; split_ifs <;> rfl
  | signal sig => rfl
  | group sig => rfl

theorem advance_of_running (h : t.status = .running sig) :
    (t.advance b).mem = (b sig t.mem t.regs).mem ∧
      (t.advance b).regs = (b sig t.mem t.regs).regs := by
  simp only [advance, h]
  split <;> exact ⟨rfl, rfl⟩

end Tracee

end Uatu
