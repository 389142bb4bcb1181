import Uatu.Foundations.Patching
import Uatu.Foundations.Throwing
import Uatu.Engine.Tracee

/-!
# The `ptrace` helpers of the engine

A command of the engine runs on a `Session`: the tracee, the answers of the kernel still to come
and the local variables of the command, which survive a throw because the guards of the commands
read them. A request succeeds when the tracee is in a ptrace-stop and nothing else is wrong with
it; what else may be wrong is the `fault` of the session, a free choice for each request by number.
Each helper has one `post_` rule, and the proofs about the commands go through these rules only.
-/

namespace Uatu

open ByteMemory Throwing

/-- What the engine throws. -/
inductive Exception
  | peek (addr : Addr)
  | poke (addr : Addr)
  | getRegs (text : String)
  | setRegs (text : String)
  /-- `std::length_error` of `std::vector::reserve`. -/
  | reserve
  /-- Any other `std::runtime_error`. -/
  | runtime (text : Text)
  deriving DecidableEq

/-- `what()` of an exception. -/
def Exception.what : Exception → Text
  | .peek addr => "PTRACE_PEEKDATA failed at addr 0x".toList ++ hex addr
  | .poke addr => "PTRACE_POKEDATA failed at addr 0x".toList ++ hex addr
  | .getRegs text => text.toList
  | .setRegs text => text.toList
  | .reserve => "vector::reserve".toList
  | .runtime text => text

/-- The requests a command makes of a tracee it has attached to. -/
inductive Request
  | peek (addr : Addr)
  | poke (addr : Addr)
  | getRegs
  | setRegs
  | cont
  | detach
  deriving DecidableEq

/-- Which requests fail for a reason other than the state of the tracee, by number and kind. -/
abbrev Fault := ℕ → Request → Bool

/-- No request fails. -/
def Fault.none : Fault := fun _ _ => false

/-- A command in progress: `V` holds the local variables of its own, `ν` is the type of a sample. -/
structure Session (R V ν : Type) where
  tracee : Tracee R
  fault : Fault
  /-- The number of requests made since `fault` was set. -/
  issued : ℕ
  needCont : Bool
  results : List ν
  vars : V

/-- A computation of the engine. -/
abbrev Engine (R V ν : Type) := EStateM Exception (Session R V ν)

variable {R V ν α : Type}

namespace Session

def tick (s : Session R V ν) : Session R V ν := { s with issued := s.issued + 1 }

def mapTracee (f : Tracee R → Tracee R) (s : Session R V ν) : Session R V ν :=
  { s with tracee := f s.tracee }

def setMem (m : Mem) (s : Session R V ν) : Session R V ν :=
  s.mapTracee fun t => { t with mem := m }

def setRegs (r : R) (s : Session R V ν) : Session R V ν :=
  s.mapTracee fun t => { t with regs := r }

def setVars (v : V) (s : Session R V ν) : Session R V ν := { s with vars := v }

def push (x : ν) (s : Session R V ν) : Session R V ν := { s with results := s.results ++ [x] }

def withFault (f : Fault) (s : Session R V ν) : Session R V ν :=
  { s with fault := f, issued := 0 }

/-- The next request, if it is `q`, succeeds. -/
def answers (s : Session R V ν) (q : Request) : Bool :=
  s.tracee.isStopped && !s.fault s.issued q

/-- The session with everything replaced that the handling of a stop can change. -/
def put (k : ℕ) (m : Mem) (r : R) (v : V) (l : List ν) (s : Session R V ν) : Session R V ν :=
  { s with tracee := { s.tracee with mem := m, regs := r }, issued := k, vars := v, results := l }

/-- The `k`-th request, if it is `q`, succeeds. -/
def answersAt (s : Session R V ν) (k : ℕ) (q : Request) : Bool :=
  s.tracee.isStopped && !s.fault k q

variable (s : Session R V ν)

@[simp] theorem tick_tracee : s.tick.tracee = s.tracee := rfl
@[simp] theorem tick_vars : s.tick.vars = s.vars := rfl
@[simp] theorem tick_results : s.tick.results = s.results := rfl
@[simp] theorem tick_needCont : s.tick.needCont = s.needCont := rfl
@[simp] theorem tick_fault : s.tick.fault = s.fault := rfl
@[simp] theorem tick_issued : s.tick.issued = s.issued + 1 := rfl

@[simp] theorem mapTracee_tracee (f : Tracee R → Tracee R) :
    (s.mapTracee f).tracee = f s.tracee := rfl
@[simp] theorem mapTracee_vars (f : Tracee R → Tracee R) : (s.mapTracee f).vars = s.vars := rfl
@[simp] theorem mapTracee_results (f : Tracee R → Tracee R) :
    (s.mapTracee f).results = s.results := rfl
@[simp] theorem mapTracee_needCont (f : Tracee R → Tracee R) :
    (s.mapTracee f).needCont = s.needCont := rfl
@[simp] theorem mapTracee_fault (f : Tracee R → Tracee R) : (s.mapTracee f).fault = s.fault := rfl
@[simp] theorem mapTracee_issued (f : Tracee R → Tracee R) :
    (s.mapTracee f).issued = s.issued := rfl

@[simp] theorem setMem_tracee (m : Mem) : (s.setMem m).tracee = { s.tracee with mem := m } := rfl
@[simp] theorem setMem_vars (m : Mem) : (s.setMem m).vars = s.vars := rfl
@[simp] theorem setMem_results (m : Mem) : (s.setMem m).results = s.results := rfl
@[simp] theorem setMem_needCont (m : Mem) : (s.setMem m).needCont = s.needCont := rfl
@[simp] theorem setMem_fault (m : Mem) : (s.setMem m).fault = s.fault := rfl
@[simp] theorem setMem_issued (m : Mem) : (s.setMem m).issued = s.issued := rfl

@[simp] theorem setRegs_tracee (r : R) :
    (s.setRegs r).tracee = { s.tracee with regs := r } := rfl
@[simp] theorem setRegs_vars (r : R) : (s.setRegs r).vars = s.vars := rfl
@[simp] theorem setRegs_results (r : R) : (s.setRegs r).results = s.results := rfl
@[simp] theorem setRegs_needCont (r : R) : (s.setRegs r).needCont = s.needCont := rfl
@[simp] theorem setRegs_fault (r : R) : (s.setRegs r).fault = s.fault := rfl
@[simp] theorem setRegs_issued (r : R) : (s.setRegs r).issued = s.issued := rfl

@[simp] theorem setVars_tracee (v : V) : (s.setVars v).tracee = s.tracee := rfl
@[simp] theorem setVars_vars (v : V) : (s.setVars v).vars = v := rfl
@[simp] theorem setVars_results (v : V) : (s.setVars v).results = s.results := rfl
@[simp] theorem setVars_needCont (v : V) : (s.setVars v).needCont = s.needCont := rfl
@[simp] theorem setVars_fault (v : V) : (s.setVars v).fault = s.fault := rfl
@[simp] theorem setVars_issued (v : V) : (s.setVars v).issued = s.issued := rfl

@[simp] theorem withFault_tracee (f : Fault) : (s.withFault f).tracee = s.tracee := rfl
@[simp] theorem withFault_vars (f : Fault) : (s.withFault f).vars = s.vars := rfl
@[simp] theorem withFault_results (f : Fault) : (s.withFault f).results = s.results := rfl
@[simp] theorem withFault_needCont (f : Fault) : (s.withFault f).needCont = s.needCont := rfl
@[simp] theorem withFault_fault (f : Fault) : (s.withFault f).fault = f := rfl
@[simp] theorem withFault_issued (f : Fault) : (s.withFault f).issued = 0 := rfl

theorem put_self : s.put s.issued s.tracee.mem s.tracee.regs s.vars s.results = s := rfl

section Put

variable (k : ℕ) (m : Mem) (r : R) (v : V) (l : List ν)

@[simp] theorem put_tracee :
    (s.put k m r v l).tracee = { s.tracee with mem := m, regs := r } := rfl
@[simp] theorem put_vars : (s.put k m r v l).vars = v := rfl
@[simp] theorem put_results : (s.put k m r v l).results = l := rfl
@[simp] theorem put_needCont : (s.put k m r v l).needCont = s.needCont := rfl
@[simp] theorem put_fault : (s.put k m r v l).fault = s.fault := rfl
@[simp] theorem put_issued : (s.put k m r v l).issued = k := rfl

@[simp] theorem put_answers (q : Request) : (s.put k m r v l).answers q = s.answersAt k q := rfl
@[simp] theorem put_tick : (s.put k m r v l).tick = s.put (k + 1) m r v l := rfl
@[simp] theorem put_setMem (m' : Mem) : (s.put k m r v l).setMem m' = s.put k m' r v l := rfl
@[simp] theorem put_setRegs (r' : R) : (s.put k m r v l).setRegs r' = s.put k m r' v l := rfl
@[simp] theorem put_setVars (v' : V) : (s.put k m r v l).setVars v' = s.put k m r v' l := rfl
@[simp] theorem put_push (x : ν) : (s.put k m r v l).push x = s.put k m r v (l ++ [x]) := rfl

end Put

/-- The second session differs from the first in what the handling of a stop can change only. -/
def Handled (t : Session R V ν) : Prop := ∃ k m r v l, t = s.put k m r v l

variable {s} {t : Session R V ν}

theorem handled_put (k : ℕ) (m : Mem) (r : R) (v : V) (l : List ν) : s.Handled (s.put k m r v l) :=
  ⟨k, m, r, v, l, rfl⟩

theorem handled_tick_put (k : ℕ) (m : Mem) (r : R) (v : V) (l : List ν) :
    s.Handled (s.tick.put k m r v l) :=
  ⟨k, m, r, v, l, rfl⟩

theorem handled_tick : s.Handled s.tick :=
  ⟨s.issued + 1, s.tracee.mem, s.tracee.regs, s.vars, s.results, rfl⟩

/-- So does the second, but for a `PTRACE_DETACH` at the end. -/
def Ended (t : Session R V ν) : Prop :=
  s.Handled t ∨ ∃ u, s.Handled u ∧ t = u.tick.mapTracee Tracee.detach

theorem ended_put (k : ℕ) (m : Mem) (r : R) (v : V) (l : List ν) : s.Ended (s.put k m r v l) :=
  .inl (handled_put k m r v l)

theorem Handled.eq_put (h : s.Handled t) :
    t = s.put t.issued t.tracee.mem t.tracee.regs t.vars t.results := by
  obtain ⟨k, m, r, v, l, rfl⟩ := h
  rfl

theorem Handled.status (h : s.Handled t) : t.tracee.status = s.tracee.status := by
  rw [h.eq_put]; rfl

theorem Handled.isStopped (h : s.Handled t) : t.tracee.isStopped = s.tracee.isStopped := by
  rw [h.eq_put]; rfl

theorem Handled.traced (h : s.Handled t) : t.tracee.traced = s.tracee.traced := by
  rw [h.eq_put]; rfl

theorem Handled.reported (h : s.Handled t) : t.tracee.reported = s.tracee.reported := by
  rw [h.eq_put]; rfl

theorem Handled.delivered (h : s.Handled t) : t.tracee.delivered = s.tracee.delivered := by
  rw [h.eq_put]; rfl

end Session

/-! ## Requests -/

/-- One `ptrace` request: whether it succeeds. -/
def request (q : Request) : Engine R V ν Bool := do
  let s ← get
  set s.tick
  return s.answers q

/-- `PTRACE_PEEKDATA`, as the lambda `peek_word` of `stack()` makes it. -/
def peekWord (addr : Addr) : Engine R V ν (Option Word) := do
  if ← request (.peek addr) then
    return some (readWord (← get).tracee.mem addr)
  else return none

/-- `PTRACE_POKEDATA`: whether it succeeds. -/
def pokeData (addr : Addr) (val : Word) : Engine R V ν Bool := do
  if ← request (.poke addr) then
    modify fun s => s.setMem (writeWord s.tracee.mem addr val)
    return true
  else return false

/-- `ptrace_read8`. -/
def ptraceRead8 (addr : Addr) : Engine R V ν Word := do
  match ← peekWord addr with
  | some val => return val
  | none => throw (.peek addr)

/-- `ptrace_write8`. -/
def ptraceWrite8 (addr : Addr) (val : Word) : Engine R V ν Unit := do
  if ← pokeData addr val then return () else throw (.poke addr)

/-- `insert_breakpoint`. -/
def insertBreakpoint (A : Arch R) (addr : Addr) : Engine R V ν Word := do
  let orig ← ptraceRead8 addr
  ptraceWrite8 addr (A.makePatchedWord orig)
  return orig

/-- `restore_word`. -/
def restoreWord (addr : Addr) (orig : Word) : Engine R V ν Unit := ptraceWrite8 addr orig

/-- `get_regs`. -/
def getRegs (A : Arch R) : Engine R V ν R := do
  if ← request .getRegs then return (← get).tracee.regs else throw (.getRegs A.getRegsFailed)

/-- `set_regs`. -/
def setRegs (A : Arch R) (regs : R) : Engine R V ν Unit := do
  if ← request .setRegs then modify fun s => s.setRegs regs else throw (.setRegs A.setRegsFailed)

/-- `PTRACE_CONT`, whose result nobody looks at. -/
def ptraceCont (sig : Signal) : Engine R V ν Unit := do
  if ← request .cont then modify fun s => s.mapTracee (Tracee.cont sig) else return ()

/-- `PTRACE_DETACH`, whose result nobody looks at. -/
def ptraceDetach : Engine R V ν Unit := do
  if ← request .detach then modify fun s => s.mapTracee Tracee.detach else return ()

variable {s : Session R V ν} {E : Exception → Session R V ν → Prop}

theorem answersAt_of_none (hs : s.tracee.isStopped) (hf : s.fault = Fault.none) (k : ℕ)
    (q : Request) : s.answersAt k q := by
  simp [Session.answersAt, hs, hf, Fault.none]

theorem answers_of_none (hs : s.tracee.isStopped) (hf : s.fault = Fault.none) (q : Request) :
    s.answers q :=
  answersAt_of_none hs hf s.issued q

theorem not_answers_of_not_stopped (hs : ¬ s.tracee.isStopped) (q : Request) : ¬ s.answers q := by
  simp [Session.answers, hs]

theorem not_answersAt_of_fault {k : ℕ} {q : Request} (h : s.fault k q = true) :
    ¬ s.answersAt k q := by
  simp [Session.answersAt, h]

@[simp] theorem post_request {q : Request} {Q : Bool → Session R V ν → Prop} :
    Post (request q) s Q E ↔ Q (s.answers q) s.tick := Iff.rfl

@[simp] theorem post_peekWord {addr : Addr} {Q : Option Word → Session R V ν → Prop} :
    Post (peekWord addr) s Q E ↔
      (s.answers (.peek addr) → Q (some (readWord s.tracee.mem addr)) s.tick) ∧
      (¬ s.answers (.peek addr) → Q none s.tick) := by
  simp [peekWord]

@[simp] theorem post_pokeData {addr : Addr} {val : Word} {Q : Bool → Session R V ν → Prop} :
    Post (pokeData addr val) s Q E ↔
      (s.answers (.poke addr) → Q true (s.tick.setMem (writeWord s.tracee.mem addr val))) ∧
      (¬ s.answers (.poke addr) → Q false s.tick) := by
  simp [pokeData]

@[simp] theorem post_ptraceRead8 {addr : Addr} {Q : Word → Session R V ν → Prop} :
    Post (ptraceRead8 addr) s Q E ↔
      (s.answers (.peek addr) → Q (readWord s.tracee.mem addr) s.tick) ∧
      (¬ s.answers (.peek addr) → E (.peek addr) s.tick) := by
  simp [ptraceRead8]

@[simp] theorem post_ptraceWrite8 {addr : Addr} {val : Word} {Q : Unit → Session R V ν → Prop} :
    Post (ptraceWrite8 addr val) s Q E ↔
      (s.answers (.poke addr) → Q () (s.tick.setMem (writeWord s.tracee.mem addr val))) ∧
      (¬ s.answers (.poke addr) → E (.poke addr) s.tick) := by
  simp [ptraceWrite8]

@[simp] theorem post_insertBreakpoint {A : Arch R} {addr : Addr}
    {Q : Word → Session R V ν → Prop} :
    Post (insertBreakpoint A addr) s Q E ↔
      (s.answers (.peek addr) →
        (s.tick.answers (.poke addr) → Q (readWord s.tracee.mem addr)
          (s.tick.tick.setMem (plant A.makePatchedWord s.tracee.mem addr))) ∧
        (¬ s.tick.answers (.poke addr) → E (.poke addr) s.tick.tick)) ∧
      (¬ s.answers (.peek addr) → E (.peek addr) s.tick) := by
  simp [insertBreakpoint, plant]

@[simp] theorem post_restoreWord {addr : Addr} {val : Word} {Q : Unit → Session R V ν → Prop} :
    Post (restoreWord addr val) s Q E ↔
      (s.answers (.poke addr) → Q () (s.tick.setMem (writeWord s.tracee.mem addr val))) ∧
      (¬ s.answers (.poke addr) → E (.poke addr) s.tick) := post_ptraceWrite8

@[simp] theorem post_getRegs {A : Arch R} {Q : R → Session R V ν → Prop} :
    Post (getRegs A) s Q E ↔ (s.answers .getRegs → Q s.tracee.regs s.tick) ∧
      (¬ s.answers .getRegs → E (.getRegs A.getRegsFailed) s.tick) := by
  simp [getRegs]

@[simp] theorem post_setRegs {A : Arch R} {regs : R} {Q : Unit → Session R V ν → Prop} :
    Post (setRegs A regs) s Q E ↔ (s.answers .setRegs → Q () (s.tick.setRegs regs)) ∧
      (¬ s.answers .setRegs → E (.setRegs A.setRegsFailed) s.tick) := by
  simp [setRegs]

@[simp] theorem post_ptraceCont {sig : Signal} {Q : Unit → Session R V ν → Prop} :
    Post (ptraceCont sig) s Q E ↔
      (s.answers .cont → Q () (s.tick.mapTracee (Tracee.cont sig))) ∧
      (¬ s.answers .cont → Q () s.tick) := by
  simp [ptraceCont]

@[simp] theorem post_ptraceDetach {Q : Unit → Session R V ν → Prop} :
    Post ptraceDetach s Q E ↔
      (s.answers .detach → Q () (s.tick.mapTracee Tracee.detach)) ∧
      (¬ s.answers .detach → Q () s.tick) := by
  simp [ptraceDetach]

theorem post_ptraceDetach_ended {k : ℕ} {m : Mem} {r : R} {v : V} {l : List ν} :
    Post ptraceDetach (s.put k m r v l) (fun _ t => s.Ended t) E := by
  rw [post_ptraceDetach]
  exact ⟨fun _ => .inr ⟨_, Session.handled_put .., rfl⟩, fun _ => Session.ended_put ..⟩

/-! ## `waitpid_timeout` -/

/-- What one `waitpid` with `WNOHANG` returns. -/
inductive Poll (R : Type)
  /-- `0`: nothing to report. -/
  | nothing
  /-- `-1`. -/
  | failed
  /-- The tracee changed state, having done this. -/
  | change (b : Behaviour R)

/-- The status `waitpid` stores. -/
inductive WaitStatus
  | stopped (c : Cause)
  | exited
  deriving DecidableEq

/-- The status of a tracee that is not running. -/
def waitStatus (t : Tracee R) : WaitStatus :=
  match t.status with
  | .stopped c => .stopped c
  | _ => .exited

/-- The loop of `waitpid_timeout`, over its readings of the clock before the deadline and what
`waitpid` returned after each; after the last reading the clock has passed the deadline. A tracee
that was not resumed has nothing to report. -/
def waitpidPoll (deadline : ℤ) : List (ℤ × Poll R) → Engine R V ν (Option WaitStatus)
  | [] => return none
  | (now, poll) :: polls => do
    if now < deadline then
      match poll, (← get).tracee.status with
      | .failed, _ => return none
      | .change b, .running _ =>
        modify fun s => s.mapTracee fun t => (t.advance b).report
        return some (waitStatus (← get).tracee)
      | _, _ => waitpidPoll deadline polls
    else return none

/-- `waitpid_timeout`: `none` for `false`, else the status written to `wstatus`. Time is in
nanoseconds, `timeoutMs` in milliseconds. -/
def waitpidTimeout (timeoutMs start : ℤ) (polls : List (ℤ × Poll R)) :
    Engine R V ν (Option WaitStatus) :=
  waitpidPoll (start + timeoutMs * 1000000) polls

/-- The behaviours in a list of polls. -/
def behaviours (polls : List (ℤ × Poll R)) : List (Behaviour R) :=
  polls.filterMap fun p => match p.2 with
    | .change b => some b
    | _ => none

theorem post_waitpidPoll {deadline : ℤ} {polls : List (ℤ × Poll R)}
    {Q : Option WaitStatus → Session R V ν → Prop} (hnone : Q none s)
    (hsome : ∀ b ∈ behaviours polls, ∀ sig, s.tracee.status = .running sig →
      Q (some (waitStatus ((s.tracee.advance b).report)))
        (s.mapTracee fun t => (t.advance b).report)) :
    Post (waitpidPoll deadline polls) s Q E := by
  induction polls with
  | nil => exact hnone
  | cons p polls ih =>
    obtain ⟨now, poll⟩ := p
    have ih := ih fun b hb => hsome b (by
      cases poll <;> simp only [behaviours, List.filterMap_cons] <;> first
        | exact hb
        | exact List.mem_cons_of_mem _ hb)
    rw [waitpidPoll]
    simp only [post_bind, post_get, post_ite, post_pure]
    refine ⟨fun _ => ?_, fun _ => hnone⟩
    split
    · exact hnone
    next b sig hsig => exact hsome b (by simp [behaviours]) sig hsig
    · exact ih

/-- `waitpid_timeout` either times out and changes nothing, or reports what a running tracee did
in one of its polls. -/
theorem post_waitpidTimeout {timeoutMs start : ℤ} {polls : List (ℤ × Poll R)}
    {Q : Option WaitStatus → Session R V ν → Prop} (hnone : Q none s)
    (hsome : ∀ b ∈ behaviours polls, ∀ sig, s.tracee.status = .running sig →
      Q (some (waitStatus ((s.tracee.advance b).report)))
        (s.mapTracee fun t => (t.advance b).report)) :
    Post (waitpidTimeout timeoutMs start polls) s Q E :=
  post_waitpidPoll hnone hsome

/-- A running tracee that changes state before the deadline is reported. -/
theorem waitpidTimeout_change {timeoutMs start now : ℤ} {b : Behaviour R} {sig : Signal}
    {polls : List (ℤ × Poll R)} (hnow : now < start + timeoutMs * 1000000)
    (hs : s.tracee.status = .running sig) :
    waitpidTimeout timeoutMs start ((now, .change b) :: polls) s =
      .ok (some (waitStatus (s.tracee.advance b).report))
        (s.mapTracee fun t => (t.advance b).report) := by
  simp only [waitpidTimeout, waitpidPoll, if_pos hnow]
  rw [bind_ok (show (get : Engine R V ν (Session R V ν)) s = .ok s s from rfl), hs]
  rfl

end Uatu
