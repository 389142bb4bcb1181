import Uatu.Dwarf.SymbolFinder
import Uatu.Elf.Image
import Uatu.Engine.Ptrace

/-!
# The sampling commands

`trace()` and `stack()` of `src/engine/attach_engine.cpp` have one shape: look the function up,
attach, wait for the first stop, plant a breakpoint at the entry of the function, and then, until
there are `count` samples, resume the tracee, wait for it to stop, pass signals on and handle each
`SIGTRAP`; at the end take the breakpoints out and detach. A `Command` holds what the two do
differently: the local variables they start with, the handling of a `SIGTRAP` stop, the destructor
of their guard and their cleanup.

Everything the environment decides is in a `Script`: the readings of the clock and of the stop flag
(cleared when the command starts), what `waitpid` returns, which requests fail, and what the tracee
does while it runs. One `Round` serves one iteration of the loop; when the rounds are used up, the
deadline has passed at the head of the loop.
-/

namespace Uatu

open ByteMemory Throwing

variable {R V ν : Type}

/-- `AttachEngine::Impl`: what the engine knows of its process. -/
structure Impl where
  exePath : Text
  /-- The symbols of the executable, or what the constructor of `SymbolFinder` throws. -/
  finder : Except Text SymbolFinder
  elf : ElfFile
  maps : List MapsLine

/-- `get_aslr_slide`. -/
def Impl.getAslrSlide (impl : Impl) : Word :=
  getLoadBase impl.maps impl.exePath - elfMinVaddr impl.elf

/-- What the environment answers during one iteration of a sampling loop. -/
structure Round (R : Type) where
  stopFlag : Bool
  /-- The first reading of the clock, in nanoseconds. -/
  now : ℤ
  /-- For the `PTRACE_CONT` at the top of the loop and the one that forwards a signal. -/
  contFault : Fault
  /-- The second reading of the clock. -/
  now2 : ℤ
  /-- The reading of the clock at the start of `waitpid_timeout`. -/
  waitStart : ℤ
  polls : List (ℤ × Poll R)
  /-- For the requests made while a `SIGTRAP` stop is handled. -/
  hitFault : Fault
  /-- The reading of the clock while a `SIGTRAP` stop is handled. -/
  nowNs : Word

/-- What the environment answers during one command. -/
structure Script (R : Type) where
  /-- What `PTRACE_ATTACH` fails with, if it does. -/
  attachError : Option Text
  attachFault : Fault
  firstStart : ℤ
  firstPolls : List (ℤ × Poll R)
  /-- The reading of the clock from which the deadline is counted. -/
  start : ℤ
  setupFault : Fault
  rounds : List (Round R)
  guardFault : Fault
  /-- What the tracee does, if it runs, from the end of the loop to the cleanup (`none`: it still
  runs). -/
  late : Option (Behaviour R)
  cleanupFault : Fault

/-- How the sampling loop ends. -/
inductive LoopExit
  | count
  | stopFlag
  | deadline
  | deadlineAfterCont
  | waitFailed
  | notStopped
  deriving DecidableEq

/-- The local constants of a command in its loop. -/
structure Target where
  funcName : Text
  count : ℤ
  finder : SymbolFinder
  aslrSlide : Word
  entryVaddr : Addr

/-- What a sampling command does of its own. Handling a stop changes memory, registers, local
variables and samples only, and so do the guard and the cleanup, which end with a
`PTRACE_DETACH`. -/
structure Command (R V ν : Type) where
  arch : Arch R
  name : Text
  /-- The end of the message when the first wait times out. -/
  timeoutText : Text
  /-- The local variables once the entry breakpoint is planted over the given word. -/
  start : Target → Word → V
  /-- The handling of a `SIGTRAP` stop; `some` leaves the loop. -/
  hit : Target → Round R → Engine R V ν (Option LoopExit)
  /-- The destructor of `PtraceGuard`, when it is active. -/
  guard : Target → Engine R V ν Unit
  /-- What follows the loop. -/
  cleanup : Target → Engine R V ν Unit
  hit_handled : ∀ c r s, Post (hit c r) s (fun _ t => s.Handled t) (fun _ t => s.Handled t)
  guard_ended : ∀ c s, Post (guard c) s (fun _ t => s.Ended t) (fun _ t => s.Ended t)
  cleanup_ended : ∀ c s, Post (cleanup c) s (fun _ t => s.Ended t) (fun _ t => s.Ended t)

namespace Command

variable (C : Command R V ν)

/-- The second half of an iteration: wait for the tracee, pass a signal on or handle a `SIGTRAP`
stop. -/
def await (c : Target) (deadline : ℤ) (r : Round R) : Engine R V ν (Option LoopExit) := do
  if deadline ≤ r.now2 then return some .deadlineAfterCont
  else
    match ← waitpidTimeout ((deadline - r.now2).tdiv 1000000) r.waitStart r.polls with
    | none => return some .waitFailed
    | some .exited => return some .notStopped
    | some (.stopped cause) =>
      if cause.stopSig ≠ SIGTRAP then do
        -- the tracee runs again, so the next iteration must not resume it
        ptraceCont cause.stopSig
        modify fun s => { s with needCont := false }
        return none
      else do
        modify (·.withFault r.hitFault)
        C.hit c r

/-- One iteration of the loop: `some` when it is left by a `break` or by its condition. -/
def round (c : Target) (deadline : ℤ) (r : Round R) : Engine R V ν (Option LoopExit) := do
  if ¬ ((← get).results.length : ℤ) < c.count then return some .count
  else if r.stopFlag then return some .stopFlag
  else if deadline ≤ r.now then return some .deadline
  else do
    modify (·.withFault r.contFault)
    if (← get).needCont then ptraceCont 0 else pure ()
    modify fun s => { s with needCont := true }
    C.await c deadline r

/-- The sampling loop. -/
def loop (c : Target) (deadline : ℤ) : List (Round R) → Engine R V ν LoopExit
  | [] => do
    if ¬ ((← get).results.length : ℤ) < c.count then return .count else return .deadline
  | r :: rounds => do
    match ← C.round c deadline r with
    | some e => return e
    | none => loop c deadline rounds

/-- From the start of the command to the deadline: look the function up, attach, wait for the
first stop and reserve room for the samples. -/
def prepare (impl : Impl) (funcName : Text) (count timeoutMs : ℤ) (env : Script R) :
    Engine R V ν (Target × ℤ) := do
  match impl.finder with
  | .error text => throw (.runtime text)
  | .ok finder =>
    match finder.find funcName with
    | none => throw (.runtime (C.name ++ ": function not found in DWARF: ".toList ++ funcName))
    | some info =>
      if info.address = 0 then
        throw (.runtime (C.name ++ ": function has no address (inlined?): ".toList ++ funcName))
      else
        match env.attachError with
        | some text => throw (.runtime (C.name ++ ": PTRACE_ATTACH failed: ".toList ++ text))
        | none => do
          modify fun s => (s.withFault env.attachFault).mapTracee Tracee.attach
          match ← waitpidTimeout 5000 env.firstStart env.firstPolls with
          | none => do
            ptraceDetach
            throw (.runtime (C.name ++ C.timeoutText))
          | some _ => do
            modify fun s => { s with results := [] }
            if count < 0 then throw .reserve
            else return ({
              funcName, count, finder
              aslrSlide := impl.getAslrSlide
              entryVaddr := info.address + impl.getAslrSlide }, env.start + timeoutMs * 1000000)

/-- Plant the entry breakpoint and initialise the local variables. -/
def arm (c : Target) (env : Script R) : Engine R V ν Unit := do
  modify (·.withFault env.setupFault)
  let origEntry ← insertBreakpoint C.arch c.entryVaddr
  modify fun s => { s.setVars (C.start c origEntry) with needCont := true }

/-- The loop under its guard, whose destructor runs when the loop throws. -/
def guarded (c : Target) (deadline : ℤ) (env : Script R) : Engine R V ν LoopExit :=
  tryCatch (C.loop c deadline env.rounds) fun e => do
    modify (·.withFault env.guardFault)
    C.guard c
    throw e

/-- A tracee that still runs goes on until the cleanup. -/
def late (env : Script R) (t : Tracee R) : Tracee R :=
  match env.late with
  | some b => t.advance b
  | none => t

/-- The cleanup, with the guard disabled. -/
def finish (c : Target) (env : Script R) : Engine R V ν (List ν) := do
  modify fun s => (s.mapTracee (late env)).withFault env.cleanupFault
  C.cleanup c
  return (← get).results

/-- The command: the samples, or what it throws. -/
def run (impl : Impl) (funcName : Text) (count timeoutMs : ℤ) (env : Script R) :
    Engine R V ν (List ν) := do
  let (c, deadline) ← C.prepare impl funcName count timeoutMs env
  C.arm c env
  let _ ← C.guarded c deadline env
  C.finish c env

end Command

/-! ## Assumptions on the environment -/

/-- What the tracee does in the course of the command. -/
def Script.behaviours (env : Script R) : List (Behaviour R) :=
  Uatu.behaviours env.firstPolls ++ env.rounds.flatMap (fun r => Uatu.behaviours r.polls) ++
    env.late.toList

/-- The tracee itself never writes the byte at `x`. -/
def Script.Keeps (env : Script R) (x : Addr) : Prop := ∀ b ∈ env.behaviours, b.Keeps x

/-- Requests fail for no reason other than the state of the tracee. -/
structure Script.FaultFree (env : Script R) : Prop where
  attach : env.attachFault = Fault.none
  setup : env.setupFault = Fault.none
  cont : ∀ r ∈ env.rounds, r.contFault = Fault.none
  hit : ∀ r ∈ env.rounds, r.hitFault = Fault.none
  guard : env.guardFault = Fault.none
  cleanup : env.cleanupFault = Fault.none

/-- The command gets past `PTRACE_ATTACH` and its first wait: the function is found, and `waitpid`
reports something about the tracee in time. -/
structure Script.Attaches (env : Script R) (impl : Impl) (funcName : Text) (s : Session R V ν) :
    Prop where
  found : ∃ finder info, impl.finder = .ok finder ∧ finder.find funcName = some info ∧
    info.address ≠ 0
  attached : env.attachError = none
  waited : ∃ status t, waitpidTimeout 5000 env.firstStart env.firstPolls
    ((s.withFault env.attachFault).mapTracee Tracee.attach) = .ok (some status) t

theorem Script.Keeps.first {env : Script R} {x : Addr} (h : env.Keeps x) {b : Behaviour R}
    (hb : b ∈ Uatu.behaviours env.firstPolls) : b.Keeps x :=
  h b (by simp [Script.behaviours, hb])

theorem Script.mem_behaviours {env : Script R} {r : Round R} (hr : r ∈ env.rounds)
    {b : Behaviour R} (hb : b ∈ Uatu.behaviours r.polls) : b ∈ env.behaviours := by
  simp only [Script.behaviours, List.mem_append, List.mem_flatMap]
  exact .inl (.inr ⟨r, hr, hb⟩)

theorem Script.Keeps.round {env : Script R} {x : Addr} (h : env.Keeps x) {r : Round R}
    (hr : r ∈ env.rounds) {b : Behaviour R} (hb : b ∈ Uatu.behaviours r.polls) : b.Keeps x :=
  h b (Script.mem_behaviours hr hb)

theorem Script.Keeps.late_mem {env : Script R} {x : Addr} (h : env.Keeps x) (t : Tracee R) :
    (Command.late env t).mem x = t.mem x := by
  unfold Command.late
  split
  next b hb => exact t.advance_mem (h b (by simp [Script.behaviours, hb]))
  · rfl

@[simp] theorem Command.late_traced (env : Script R) (t : Tracee R) :
    (Command.late env t).traced = t.traced := by
  unfold Command.late
  split
  · exact t.advance_traced _
  · rfl

/-! ## A process to sample -/

/-- A process with one function, `f` at `0x1000`, loaded where it was linked. -/
def Impl.single : Impl where
  exePath := "/f".toList
  finder := .ok ⟨[⟨"f".toList, "f".toList, 0x1000, 16, [], "int".toList, false⟩]⟩
  elf := ⟨false, []⟩
  maps := []

/-- Code of `nop`s, and a stack with the return address `0x2000` on top. -/
def Mem.single : Mem := writeWord (fun _ => 0x90) 0x3000 0x2000

def X86Regs.single : X86Regs := ⟨0x2000, 0x3000, 0, 0, fun _ => 0⟩

/-- The command before it starts, on a tracee that runs untraced. -/
def Session.single (v : V) : Session X86Regs V ν where
  tracee := ⟨Mem.single, X86Regs.single, .running 0, false, false, [], []⟩
  fault := Fault.none
  issued := 0
  needCont := true
  results := []
  vars := v

/-- Stop, leaving memory and registers alone. -/
def Behaviour.stop (c : Cause) : Behaviour R := fun _ m regs => ⟨m, regs, some c⟩

/-- Run to a breakpoint, writing nothing. -/
def Behaviour.trapAt (addr : Addr) : Behaviour X86Regs :=
  fun _ m regs => ⟨m, { regs with rip := addr + 1 }, some (.signal SIGTRAP)⟩

/-- An iteration within the first nanosecond, in which `waitpid` answers as given. -/
def Round.polling (polls : List (ℤ × Poll R)) : Round R where
  stopFlag := false
  now := 0
  contFault := Fault.none
  now2 := 0
  waitStart := 0
  polls
  hitFault := Fault.none
  nowNs := 0

/-- The tracee stops at once for the attach, and then these iterations follow. -/
def Script.sampling (rounds : List (Round R)) : Script R where
  attachError := none
  attachFault := Fault.none
  firstStart := 0
  firstPolls := [(0, .change (.stop .attach))]
  start := 0
  setupFault := Fault.none
  rounds
  guardFault := Fault.none
  late := none
  cleanupFault := Fault.none

theorem attaches_sampling (rounds : List (Round X86Regs)) (v : V) :
    (Script.sampling rounds).Attaches Impl.single "f".toList
      (Session.single v : Session X86Regs V ν) where
  found := ⟨_, _, rfl, rfl, by decide⟩
  attached := rfl
  waited := ⟨_, _, rfl⟩

end Uatu
