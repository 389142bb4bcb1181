import Uatu.Engine.Sampling

/-!
# `trace()`

`AttachEngine::trace` of `src/engine/attach_engine.cpp`: a breakpoint at the entry of the function
starts a sample and is exchanged for one at the return address, which completes it.
-/

namespace Uatu

open ByteMemory Throwing

variable {R : Type}

/-- The local variables of the loop of `trace()`, and the word its guard holds. -/
structure TraceVars where
  origEntry : Word
  /-- `guard.orig_word`. -/
  guardWord : Word
  waitingForExit : Bool
  retVaddr : Addr
  origRet : Word
  entryTs : Word
  deriving Inhabited

namespace Trace

/-- The entry breakpoint is hit: exchange it for one at the return address. -/
def entryHit (A : Arch R) (c : Target) (r : Round R) (regs : R) :
    Engine R TraceVars TraceNode Unit := do
  modify fun s => s.setVars { s.vars with entryTs := r.nowNs }
  restoreWord c.entryVaddr (← get).vars.origEntry
  let regs := A.setIp regs c.entryVaddr
  let ret ← ptraceRead8 (A.getSp regs)
  modify fun s => s.setVars { s.vars with retVaddr := ret }
  let orig ← insertBreakpoint A ret
  modify fun s => s.setVars { s.vars with origRet := orig }
  setRegs A regs
  modify fun s => s.setVars { s.vars with waitingForExit := true }

/-- The return breakpoint is hit: record the sample and arm the entry breakpoint again. -/
def returnHit (A : Arch R) (c : Target) (r : Round R) (regs : R) :
    Engine R TraceVars TraceNode Unit := do
  let v := (← get).vars
  modify fun s => s.push {
    funcName := c.funcName
    durationNs := r.nowNs - v.entryTs
    retRaw := A.getRet regs }
  restoreWord v.retVaddr v.origRet
  let regs := A.setIp regs v.retVaddr
  setRegs A regs
  let orig ← insertBreakpoint A c.entryVaddr
  modify fun s => s.setVars
    { s.vars with origEntry := orig, guardWord := orig, waitingForExit := false }

/-- The handling of a `SIGTRAP` stop. -/
def hit (A : Arch R) (c : Target) (r : Round R) :
    Engine R TraceVars TraceNode (Option LoopExit) := do
  let regs ← getRegs A
  let hitAddr := A.getIp regs - A.pcAdjustAfterTrap
  let v := (← get).vars
  if v.waitingForExit = false ∧ hitAddr = c.entryVaddr then do
    entryHit A c r regs
    return none
  else if v.waitingForExit = true ∧ hitAddr = v.retVaddr then do
    returnHit A c r regs
    return none
  else return none

/-- The destructor of `PtraceGuard`: the results of its requests are not looked at. -/
def guard (c : Target) : Engine R TraceVars TraceNode Unit := do
  let _ ← pokeData c.entryVaddr (← get).vars.guardWord
  ptraceDetach

/-- What follows the loop. -/
def cleanup (c : Target) : Engine R TraceVars TraceNode Unit := do
  let v := (← get).vars
  if v.waitingForExit = true ∧ v.retVaddr ≠ 0 then restoreWord v.retVaddr v.origRet else pure ()
  restoreWord c.entryVaddr v.origEntry
  ptraceDetach

/-! ## What the handling of a stop can do -/

variable (A : Arch R) (c : Target)

/-- The memory with the entry breakpoint taken out. -/
def entryMem (m : Mem) (v : TraceVars) : Mem := writeWord m c.entryVaddr v.origEntry

/-- The return address found at an entry hit. -/
def entryRet (m : Mem) (v : TraceVars) (regs : R) : Addr :=
  readWord (entryMem c m v) (A.getSp regs)

/-- The memory with the entry breakpoint exchanged for one at the return address. -/
def exitArmedMem (m : Mem) (v : TraceVars) (regs : R) : Mem :=
  plant A.makePatchedWord (entryMem c m v) (entryRet A c m v regs)

/-- The local variables while a sampled call is running. -/
def exitArmedVars (m : Mem) (v : TraceVars) (regs : R) (now : Word) : TraceVars :=
  { v with
    waitingForExit := true
    retVaddr := entryRet A c m v regs
    origRet := readWord (entryMem c m v) (entryRet A c m v regs)
    entryTs := now }

/-- The memory with the return breakpoint taken out. -/
def exitMem (m : Mem) (v : TraceVars) : Mem := writeWord m v.retVaddr v.origRet

/-- The memory with the return breakpoint exchanged for the one at the entry. -/
def entryArmedMem (m : Mem) (v : TraceVars) : Mem :=
  plant A.makePatchedWord (exitMem m v) c.entryVaddr

/-- The local variables while no call is sampled. -/
def entryArmedVars (m : Mem) (v : TraceVars) : TraceVars :=
  { v with
    origEntry := readWord (exitMem m v) c.entryVaddr
    guardWord := readWord (exitMem m v) c.entryVaddr
    waitingForExit := false }

/-- The sample a return hit records. -/
def node (v : TraceVars) (regs : R) (now : Word) : TraceNode :=
  { funcName := c.funcName, durationNs := now - v.entryTs, retRaw := A.getRet regs }

variable {A c} {r : Round R} {regs : R} {s : Session R TraceVars TraceNode}
  {E : Exception → Session R TraceVars TraceNode → Prop}

/-- A `SIGTRAP` stop is an entry hit, a return hit, or no business of the engine. -/
theorem post_hit {Q : Option LoopExit → Session R TraceVars TraceNode → Prop} :
    Post (hit A c r) s Q E ↔
      (s.answers .getRegs →
        (s.vars.waitingForExit = false ∧
            A.getIp s.tracee.regs - A.pcAdjustAfterTrap = c.entryVaddr →
          Post (entryHit A c r s.tracee.regs) s.tick (fun _ t => Q none t) E) ∧
        (¬ (s.vars.waitingForExit = false ∧
            A.getIp s.tracee.regs - A.pcAdjustAfterTrap = c.entryVaddr) →
          (s.vars.waitingForExit = true ∧
              A.getIp s.tracee.regs - A.pcAdjustAfterTrap = s.vars.retVaddr →
            Post (returnHit A c r s.tracee.regs) s.tick (fun _ t => Q none t) E) ∧
          (¬ (s.vars.waitingForExit = true ∧
              A.getIp s.tracee.regs - A.pcAdjustAfterTrap = s.vars.retVaddr) →
            Q none s.tick))) ∧
      (¬ s.answers .getRegs → E (.getRegs A.getRegsFailed) s.tick) := by
  simp only [hit, post_bind, post_getRegs, post_get, post_ite, post_pure, Session.tick_vars]

/-- The five requests of an entry hit after its registers are read, and where each failure of one
of them leaves the session. -/
theorem post_entryHit {k : ℕ} (hk : s.issued = k)
    {Q : Unit → Session R TraceVars TraceNode → Prop} :
    Post (entryHit A c r regs) s Q E ↔
      (s.answersAt k (.poke c.entryVaddr) →
        (s.answersAt (k + 1) (.peek (A.getSp regs)) →
          (s.answersAt (k + 2) (.peek (entryRet A c s.tracee.mem s.vars regs)) →
            (s.answersAt (k + 3) (.poke (entryRet A c s.tracee.mem s.vars regs)) →
              (s.answersAt (k + 4) .setRegs →
                Q () (s.put (k + 5) (exitArmedMem A c s.tracee.mem s.vars regs)
                  (A.setIp regs c.entryVaddr)
                  (exitArmedVars A c s.tracee.mem s.vars regs r.nowNs) s.results)) ∧
              (¬ s.answersAt (k + 4) .setRegs →
                E (.setRegs A.setRegsFailed) (s.put (k + 5)
                  (exitArmedMem A c s.tracee.mem s.vars regs) s.tracee.regs
                  { exitArmedVars A c s.tracee.mem s.vars regs r.nowNs with
                    waitingForExit := s.vars.waitingForExit } s.results))) ∧
            (¬ s.answersAt (k + 3) (.poke (entryRet A c s.tracee.mem s.vars regs)) →
              E (.poke (entryRet A c s.tracee.mem s.vars regs)) (s.put (k + 4)
                (entryMem c s.tracee.mem s.vars) s.tracee.regs
                { s.vars with
                  retVaddr := entryRet A c s.tracee.mem s.vars regs, entryTs := r.nowNs }
                s.results))) ∧
          (¬ s.answersAt (k + 2) (.peek (entryRet A c s.tracee.mem s.vars regs)) →
            E (.peek (entryRet A c s.tracee.mem s.vars regs)) (s.put (k + 3)
              (entryMem c s.tracee.mem s.vars) s.tracee.regs
              { s.vars with
                retVaddr := entryRet A c s.tracee.mem s.vars regs, entryTs := r.nowNs }
              s.results))) ∧
        (¬ s.answersAt (k + 1) (.peek (A.getSp regs)) →
          E (.peek (A.getSp regs)) (s.put (k + 2) (entryMem c s.tracee.mem s.vars) s.tracee.regs
            { s.vars with entryTs := r.nowNs } s.results))) ∧
      (¬ s.answersAt k (.poke c.entryVaddr) →
        E (.poke c.entryVaddr) (s.put (k + 1) s.tracee.mem s.tracee.regs
          { s.vars with entryTs := r.nowNs } s.results)) := by
  subst hk
  rw [← s.put_self]
  simp only [entryHit, post_bind, post_modify, post_get, post_restoreWord, post_ptraceRead8,
    post_insertBreakpoint, post_setRegs, Session.put_answers, Session.put_tick, Session.put_setMem,
    Session.put_setRegs, Session.put_setVars, Session.put_vars, Session.put_tracee,
    Arch.getSp_setIp]
  rfl

/-- The four requests of a return hit after its registers are read. -/
theorem post_returnHit {k : ℕ} (hk : s.issued = k)
    {Q : Unit → Session R TraceVars TraceNode → Prop} :
    Post (returnHit A c r regs) s Q E ↔
      (s.answersAt k (.poke s.vars.retVaddr) →
        (s.answersAt (k + 1) .setRegs →
          (s.answersAt (k + 2) (.peek c.entryVaddr) →
            (s.answersAt (k + 3) (.poke c.entryVaddr) →
              Q () (s.put (k + 4) (entryArmedMem A c s.tracee.mem s.vars)
                (A.setIp regs s.vars.retVaddr) (entryArmedVars c s.tracee.mem s.vars)
                (s.results ++ [node A c s.vars regs r.nowNs]))) ∧
            (¬ s.answersAt (k + 3) (.poke c.entryVaddr) →
              E (.poke c.entryVaddr) (s.put (k + 4) (exitMem s.tracee.mem s.vars)
                (A.setIp regs s.vars.retVaddr) s.vars
                (s.results ++ [node A c s.vars regs r.nowNs])))) ∧
          (¬ s.answersAt (k + 2) (.peek c.entryVaddr) →
            E (.peek c.entryVaddr) (s.put (k + 3) (exitMem s.tracee.mem s.vars)
              (A.setIp regs s.vars.retVaddr) s.vars
              (s.results ++ [node A c s.vars regs r.nowNs])))) ∧
        (¬ s.answersAt (k + 1) .setRegs →
          E (.setRegs A.setRegsFailed) (s.put (k + 2) (exitMem s.tracee.mem s.vars)
            s.tracee.regs s.vars (s.results ++ [node A c s.vars regs r.nowNs])))) ∧
      (¬ s.answersAt k (.poke s.vars.retVaddr) →
        E (.poke s.vars.retVaddr) (s.put (k + 1) s.tracee.mem s.tracee.regs s.vars
          (s.results ++ [node A c s.vars regs r.nowNs]))) := by
  subst hk
  rw [← s.put_self]
  simp only [returnHit, post_bind, post_modify, post_get, post_restoreWord,
    post_insertBreakpoint, post_setRegs, Session.put_answers, Session.put_tick, Session.put_setMem,
    Session.put_setRegs, Session.put_setVars, Session.put_push, Session.put_vars,
    Session.put_tracee]
  rfl

theorem post_hit_handled :
    Post (hit A c r) s (fun _ t => s.Handled t) (fun _ t => s.Handled t) := by
  rw [post_hit]
  refine ⟨fun _ => ⟨fun _ => ?_, fun _ => ⟨fun _ => ?_, fun _ => Session.handled_tick⟩⟩,
    fun _ => Session.handled_tick⟩
  · rw [post_entryHit rfl]
    simp [Session.handled_tick_put]
  · rw [post_returnHit rfl]
    simp [Session.handled_tick_put]

theorem post_guard_ended : Post (guard c) s (fun _ t => s.Ended t) (fun _ t => s.Ended t) := by
  suffices h : Post (guard c) (s.put s.issued s.tracee.mem s.tracee.regs s.vars s.results)
      (fun _ t => s.Ended t) (fun _ t => s.Ended t) from h
  simp only [guard, post_bind, post_get, post_pokeData, Session.put_tick,
    Session.put_setMem, post_ptraceDetach_ended, implies_true, and_self]

theorem post_cleanup_ended : Post (cleanup c) s (fun _ t => s.Ended t) (fun _ t => s.Ended t) := by
  suffices h : Post (cleanup c) (s.put s.issued s.tracee.mem s.tracee.regs s.vars s.results)
      (fun _ t => s.Ended t) (fun _ t => s.Ended t) from h
  simp only [cleanup, post_bind, post_get, post_ite, post_restoreWord, Session.put_tick,
    Session.put_setMem, post_ptraceDetach_ended, Session.ended_put, implies_true, and_self]

end Trace

/-- What `trace()` does of its own. -/
def traceCommand (A : Arch R) : Command R TraceVars TraceNode where
  arch := A
  name := "trace".toList
  timeoutText := ": timeout waiting for process to stop after PTRACE_ATTACH".toList
  start _ origEntry :=
    { origEntry, guardWord := origEntry, waitingForExit := false, retVaddr := 0, origRet := 0,
      entryTs := 0 }
  hit := Trace.hit A
  guard := Trace.guard
  cleanup := Trace.cleanup
  hit_handled _ _ _ := Trace.post_hit_handled
  guard_ended _ _ := Trace.post_guard_ended
  cleanup_ended _ _ := Trace.post_cleanup_ended

/-- `AttachEngine::trace`. -/
def trace (A : Arch R) (impl : Impl) (funcName : Text) (count timeoutMs : ℤ) (env : Script R) :
    Engine R TraceVars TraceNode (List TraceNode) :=
  (traceCommand A).run impl funcName count timeoutMs env

end Uatu
