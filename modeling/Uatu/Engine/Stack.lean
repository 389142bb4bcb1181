import Uatu.Engine.Sampling

/-!
# `stack()`

`AttachEngine::stack` of `src/engine/attach_engine.cpp`: each hit of the entry breakpoint is a
sample, whose frames are read off the frame-pointer chain. The entry breakpoint is taken out for
the sampled call and planted again when the call returns.
-/

namespace Uatu

open ByteMemory Throwing

variable {R : Type}

/-- The local variables of the loop of `stack()`, which its guard refers to. -/
structure StackVars where
  origEntry : Word
  entryArmed : Bool
  waitingForExit : Bool
  retVaddr : Addr
  origRet : Word
  deriving Inhabited

namespace Stack

/-- The lambda `sym_for`: the name of the function at a runtime address, or the address. -/
def symFor (c : Target) (runtimeAddr : Addr) : Text :=
  let linkAddr := if runtimeAddr ≥ c.aslrSlide then runtimeAddr - c.aslrSlide else runtimeAddr
  match c.finder.lookupByAddr linkAddr with
  | some sym => sym
  | none => "0x".toList ++ (hex runtimeAddr).leftpad 16 '0'

/-- The walk along the frame-pointer chain, for at most this many frames. -/
def walk {V ν : Type} (c : Target) : ℕ → Word → Engine R V ν (List Text)
  | 0, _ => return []
  | n + 1, rbp => do
    if rbp ≠ 0 ∧ rbp.toNat % 8 = 0 then do
      let saved ← peekWord rbp
      let ret ← peekWord (rbp + 8)
      match ret with
      | none => return []
      | some ret =>
        if ret = 0 then return []
        else
          match saved with
          | none => return [symFor c ret]
          | some saved =>
            if saved = 0 ∨ saved ≤ rbp then return [symFor c ret]
            else return symFor c ret :: (← walk c n saved)
    else return []

/-- The frames of a sample, from the registers at the entry of the function. -/
def frames {V ν : Type} (A : Arch R) (c : Target) (regs : R) : Engine R V ν (List Text) := do
  match ← peekWord (A.getSp regs) with
  | some ra => return c.funcName :: symFor c ra :: (← walk c 14 (A.getFp regs))
  | none => return [c.funcName]

/-- The entry breakpoint fired: take it out, record the sample and, if more are wanted, plant a
breakpoint at the return address. -/
def entryHit (A : Arch R) (c : Target) (r : Round R) (regs : R) :
    Engine R StackVars StackEvent (Option LoopExit) := do
  restoreWord c.entryVaddr (← get).vars.origEntry
  modify fun s => s.setVars { s.vars with entryArmed := false }
  let regs := A.setIp regs c.entryVaddr
  setRegs A regs
  let frames ← frames A c regs
  modify fun s => s.push { timestampNs := r.nowNs, funcName := c.funcName, frames }
  if ¬ ((← get).results.length : ℤ) < c.count then return some .count
  else
    match ← peekWord (A.getSp regs) with
    | some ra => do
      modify fun s => s.setVars { s.vars with retVaddr := ra }
      let orig ← insertBreakpoint A ra
      modify fun s => s.setVars { s.vars with origRet := orig, waitingForExit := true }
      return none
    | none => do
      -- the return address cannot be read: arm the entry breakpoint again at once
      let orig ← insertBreakpoint A c.entryVaddr
      modify fun s => s.setVars { s.vars with origEntry := orig, entryArmed := true }
      return none

/-- The return breakpoint fired: take it out and arm the entry breakpoint again. -/
def returnHit (A : Arch R) (c : Target) (regs : R) : Engine R StackVars StackEvent Unit := do
  let v := (← get).vars
  restoreWord v.retVaddr v.origRet
  setRegs A (A.setIp regs v.retVaddr)
  modify fun s => s.setVars { s.vars with waitingForExit := false }
  let orig ← insertBreakpoint A c.entryVaddr
  modify fun s => s.setVars { s.vars with origEntry := orig, entryArmed := true }

/-- The handling of a `SIGTRAP` stop. -/
def hit (A : Arch R) (c : Target) (r : Round R) :
    Engine R StackVars StackEvent (Option LoopExit) := do
  let regs ← getRegs A
  let hitAddr := A.getIp regs - A.pcAdjustAfterTrap
  let v := (← get).vars
  if v.waitingForExit = false ∧ hitAddr = c.entryVaddr then entryHit A c r regs
  else if v.waitingForExit = true ∧ hitAddr = v.retVaddr then do
    returnHit A c regs
    return none
  else return none

/-- The destructor of `PtraceGuard`, which refers to the variables of the loop: the results of its
requests are not looked at. -/
def guard (c : Target) : Engine R StackVars StackEvent Unit := do
  let v := (← get).vars
  if v.waitingForExit = true ∧ v.retVaddr ≠ 0 then let _ ← pokeData v.retVaddr v.origRet
  else pure ()
  if v.entryArmed = true then let _ ← pokeData c.entryVaddr v.origEntry else pure ()
  ptraceDetach

/-- What follows the loop. -/
def cleanup (c : Target) : Engine R StackVars StackEvent Unit := do
  let v := (← get).vars
  if v.waitingForExit = true ∧ v.retVaddr ≠ 0 then restoreWord v.retVaddr v.origRet else pure ()
  if v.entryArmed = true then restoreWord c.entryVaddr v.origEntry else pure ()
  ptraceDetach

/-! ## What the handling of a stop can do -/

variable (A : Arch R) (c : Target)

/-- The memory with the entry breakpoint taken out. -/
def entryMem (m : Mem) (v : StackVars) : Mem := writeWord m c.entryVaddr v.origEntry

/-- The return address found at an entry hit. -/
def entryRet (m : Mem) (v : StackVars) (regs : R) : Addr :=
  readWord (entryMem c m v) (A.getSp regs)

/-- The memory with the entry breakpoint exchanged for one at the return address. -/
def exitArmedMem (m : Mem) (v : StackVars) (regs : R) : Mem :=
  plant A.makePatchedWord (entryMem c m v) (entryRet A c m v regs)

/-- The local variables with no breakpoint planted. -/
def unarmedVars (v : StackVars) : StackVars := { v with entryArmed := false }

/-- The local variables while a sampled call is running. -/
def exitArmedVars (m : Mem) (v : StackVars) (regs : R) : StackVars :=
  { v with
    entryArmed := false
    waitingForExit := true
    retVaddr := entryRet A c m v regs
    origRet := readWord (entryMem c m v) (entryRet A c m v regs) }

/-- The memory with the entry breakpoint planted again at once. -/
def rearmedMem (m : Mem) (v : StackVars) : Mem :=
  plant A.makePatchedWord (entryMem c m v) c.entryVaddr

/-- The local variables with the entry breakpoint planted again over what a memory holds there. -/
def armedVars (m : Mem) (v : StackVars) : StackVars :=
  { v with origEntry := readWord m c.entryVaddr, entryArmed := true }

/-- The memory with the return breakpoint taken out. -/
def exitMem (m : Mem) (v : StackVars) : Mem := writeWord m v.retVaddr v.origRet

/-- The memory with the return breakpoint exchanged for the one at the entry. -/
def entryArmedMem (m : Mem) (v : StackVars) : Mem :=
  plant A.makePatchedWord (exitMem m v) c.entryVaddr

/-- The local variables while no call is sampled. -/
def entryArmedVars (m : Mem) (v : StackVars) : StackVars :=
  armedVars c (exitMem m v) { v with waitingForExit := false }

variable {A c} {r : Round R} {regs : R} {m : Mem} {v : StackVars} {l : List StackEvent}
  {s : Session R StackVars StackEvent} {E : Exception → Session R StackVars StackEvent → Prop}

/-- The walk makes requests, and nothing else. -/
theorem post_walk {n k : ℕ} {rbp : Word}
    {Q : List Text → Session R StackVars StackEvent → Prop}
    (h : ∀ fs j, k ≤ j → Q fs (s.put j m regs v l)) :
    Post (walk c n rbp) (s.put k m regs v l) Q E := by
  induction n generalizing k rbp Q with
  | zero => exact h _ _ le_rfl
  | succ n ih =>
    have hstop : ∀ fs, Q fs (s.put (k + 1 + 1) m regs v l) := fun fs => h fs _ (by omega)
    simp only [walk, post_bind, post_ite, post_pure, post_peekWord, Session.put_tick]
    refine ⟨fun _ => ⟨fun _ => ⟨fun _ => ?_, fun _ => hstop _⟩,
      fun _ => ⟨fun _ => ?_, fun _ => hstop _⟩⟩, fun _ => h _ _ le_rfl⟩
    · exact ⟨fun _ => hstop _, fun _ => ⟨fun _ => hstop _, fun _ =>
        ih fun fs j hj => h _ _ (by omega)⟩⟩
    · exact ⟨fun _ => hstop _, fun _ => hstop _⟩

theorem post_frames {k : ℕ} {Q : List Text → Session R StackVars StackEvent → Prop}
    (h : ∀ fs j, k ≤ j → Q fs (s.put j m regs v l)) {regs' : R} :
    Post (frames A c regs') (s.put k m regs v l) Q E := by
  simp only [frames, post_bind, post_peekWord, Session.put_tick]
  refine ⟨fun _ => ?_, fun _ => h _ _ (by omega)⟩
  simp only [post_pure]
  exact post_walk fun fs j hj => h _ _ (by omega)

/-- A `SIGTRAP` stop is an entry hit, a return hit, or no business of the engine. -/
theorem post_hit {Q : Option LoopExit → Session R StackVars StackEvent → Prop} :
    Post (hit A c r) s Q E ↔
      (s.answers .getRegs →
        (s.vars.waitingForExit = false ∧
            A.getIp s.tracee.regs - A.pcAdjustAfterTrap = c.entryVaddr →
          Post (entryHit A c r s.tracee.regs) s.tick Q E) ∧
        (¬ (s.vars.waitingForExit = false ∧
            A.getIp s.tracee.regs - A.pcAdjustAfterTrap = c.entryVaddr) →
          (s.vars.waitingForExit = true ∧
              A.getIp s.tracee.regs - A.pcAdjustAfterTrap = s.vars.retVaddr →
            Post (returnHit A c s.tracee.regs) s.tick (fun _ t => Q none t) E) ∧
          (¬ (s.vars.waitingForExit = true ∧
              A.getIp s.tracee.regs - A.pcAdjustAfterTrap = s.vars.retVaddr) →
            Q none s.tick))) ∧
      (¬ s.answers .getRegs → E (.getRegs A.getRegsFailed) s.tick) := by
  simp only [hit, post_bind, post_getRegs, post_get, post_ite, post_pure, Session.tick_vars]

/-- What an entry hit can do after its registers are read: each request is made when the ones
before it have succeeded, and the walk makes any number of them between the second and the
third. -/
structure EntryHit (A : Arch R) (c : Target) (regs : R) (s : Session R StackVars StackEvent)
    (Q : Option LoopExit → Session R StackVars StackEvent → Prop)
    (E : Exception → Session R StackVars StackEvent → Prop) : Prop where
  takeOut : ¬ s.answersAt s.issued (.poke c.entryVaddr) →
    E (.poke c.entryVaddr) (s.put (s.issued + 1) s.tracee.mem s.tracee.regs s.vars s.results)
  setRegs : ¬ s.answersAt (s.issued + 1) .setRegs →
    E (.setRegs A.setRegsFailed) (s.put (s.issued + 2) (entryMem c s.tracee.mem s.vars)
      s.tracee.regs (unarmedVars s.vars) s.results)
  count : ∀ ev k, ¬ ((s.results.length : ℤ) + 1 < c.count) →
    Q (some .count) (s.put k (entryMem c s.tracee.mem s.vars) (A.setIp regs c.entryVaddr)
      (unarmedVars s.vars) (s.results ++ [ev]))
  peekRet : ∀ ev k, ¬ s.answersAt k (.peek (entryRet A c s.tracee.mem s.vars regs)) →
    E (.peek (entryRet A c s.tracee.mem s.vars regs)) (s.put (k + 1)
      (entryMem c s.tracee.mem s.vars) (A.setIp regs c.entryVaddr)
      { unarmedVars s.vars with retVaddr := entryRet A c s.tracee.mem s.vars regs }
      (s.results ++ [ev]))
  pokeRet : ∀ ev k, ¬ s.answersAt k (.poke (entryRet A c s.tracee.mem s.vars regs)) →
    E (.poke (entryRet A c s.tracee.mem s.vars regs)) (s.put (k + 1)
      (entryMem c s.tracee.mem s.vars) (A.setIp regs c.entryVaddr)
      { unarmedVars s.vars with retVaddr := entryRet A c s.tracee.mem s.vars regs }
      (s.results ++ [ev]))
  exitArmed : ∀ ev k, s.answersAt k (.peek (A.getSp regs)) →
    s.answersAt (k + 1) (.peek (entryRet A c s.tracee.mem s.vars regs)) →
    (s.results.length : ℤ) + 1 < c.count →
    Q none (s.put (k + 3) (exitArmedMem A c s.tracee.mem s.vars regs) (A.setIp regs c.entryVaddr)
      (exitArmedVars A c s.tracee.mem s.vars regs) (s.results ++ [ev]))
  peekEntry : ∀ ev k, ¬ s.answersAt k (.peek c.entryVaddr) →
    E (.peek c.entryVaddr) (s.put (k + 1) (entryMem c s.tracee.mem s.vars)
      (A.setIp regs c.entryVaddr) (unarmedVars s.vars) (s.results ++ [ev]))
  pokeEntry : ∀ ev k, ¬ s.answersAt k (.poke c.entryVaddr) →
    E (.poke c.entryVaddr) (s.put (k + 1) (entryMem c s.tracee.mem s.vars)
      (A.setIp regs c.entryVaddr) (unarmedVars s.vars) (s.results ++ [ev]))
  rearmed : ∀ ev k, ¬ s.answersAt k (.peek (A.getSp regs)) →
    Q none (s.put (k + 3) (rearmedMem A c s.tracee.mem s.vars) (A.setIp regs c.entryVaddr)
      (armedVars c (entryMem c s.tracee.mem s.vars) s.vars) (s.results ++ [ev]))

theorem post_entryHit {Q : Option LoopExit → Session R StackVars StackEvent → Prop}
    (h : EntryHit A c regs s Q E) : Post (entryHit A c r regs) s Q E := by
  have hs := s.put_self
  rw [← hs]
  simp only [entryHit, post_bind, post_modify, post_get, post_restoreWord, post_setRegs,
    Session.put_answers, Session.put_tick, Session.put_setMem, Session.put_setRegs,
    Session.put_setVars, Session.put_vars, Session.put_tracee]
  refine ⟨fun _ => ⟨fun _ => post_frames fun fs k _ => ?_, h.setRegs⟩, h.takeOut⟩
  simp only [post_ite, post_bind, post_pure, post_peekWord, post_insertBreakpoint, post_modify,
    Session.put_answers, Session.put_tick, Session.put_setMem, Session.put_setVars,
    Session.put_vars, Session.put_tracee, Session.put_push, Session.put_results,
    List.length_append, List.length_singleton, Nat.cast_add, Nat.cast_one, Arch.getSp_setIp]
  refine ⟨h.count _ _, fun hlt => ⟨fun hsp => ?_, fun hsp => ?_⟩⟩
  · exact ⟨fun hpeek => ⟨fun _ => h.exitArmed _ _ hsp hpeek (not_not.1 hlt), h.pokeRet _ _⟩,
      h.peekRet _ _⟩
  · exact ⟨fun _ => ⟨fun _ => h.rearmed _ _ hsp, h.pokeEntry _ _⟩, h.peekEntry _ _⟩

/-- The four requests of a return hit after its registers are read. -/
theorem post_returnHit {k : ℕ} (hk : s.issued = k)
    {Q : Unit → Session R StackVars StackEvent → Prop} :
    Post (returnHit A c regs) s Q E ↔
      (s.answersAt k (.poke s.vars.retVaddr) →
        (s.answersAt (k + 1) .setRegs →
          (s.answersAt (k + 2) (.peek c.entryVaddr) →
            (s.answersAt (k + 3) (.poke c.entryVaddr) →
              Q () (s.put (k + 4) (entryArmedMem A c s.tracee.mem s.vars)
                (A.setIp regs s.vars.retVaddr) (entryArmedVars c s.tracee.mem s.vars)
                s.results)) ∧
            (¬ s.answersAt (k + 3) (.poke c.entryVaddr) →
              E (.poke c.entryVaddr) (s.put (k + 4) (exitMem s.tracee.mem s.vars)
                (A.setIp regs s.vars.retVaddr) { s.vars with waitingForExit := false }
                s.results))) ∧
          (¬ s.answersAt (k + 2) (.peek c.entryVaddr) →
            E (.peek c.entryVaddr) (s.put (k + 3) (exitMem s.tracee.mem s.vars)
              (A.setIp regs s.vars.retVaddr) { s.vars with waitingForExit := false }
              s.results))) ∧
        (¬ s.answersAt (k + 1) .setRegs →
          E (.setRegs A.setRegsFailed) (s.put (k + 2) (exitMem s.tracee.mem s.vars)
            s.tracee.regs s.vars s.results))) ∧
      (¬ s.answersAt k (.poke s.vars.retVaddr) →
        E (.poke s.vars.retVaddr) (s.put (k + 1) s.tracee.mem s.tracee.regs s.vars
          s.results)) := by
  subst hk
  rw [← s.put_self]
  simp only [returnHit, post_bind, post_modify, post_get, post_restoreWord,
    post_insertBreakpoint, post_setRegs, Session.put_answers, Session.put_tick, Session.put_setMem,
    Session.put_setRegs, Session.put_setVars, Session.put_vars, Session.put_tracee]
  rfl

theorem post_hit_handled :
    Post (hit A c r) s (fun _ t => s.Handled t) (fun _ t => s.Handled t) := by
  rw [post_hit]
  refine ⟨fun _ => ⟨fun _ => post_entryHit ?_, fun _ => ⟨fun _ => ?_,
    fun _ => Session.handled_tick⟩⟩, fun _ => Session.handled_tick⟩
  · constructor <;> intros <;> exact Session.handled_tick_put ..
  · rw [post_returnHit rfl]
    simp [Session.handled_tick_put]

theorem post_guard_ended : Post (guard c) s (fun _ t => s.Ended t) (fun _ t => s.Ended t) := by
  suffices h : Post (guard c) (s.put s.issued s.tracee.mem s.tracee.regs s.vars s.results)
      (fun _ t => s.Ended t) (fun _ t => s.Ended t) from h
  simp only [guard, post_bind, post_get, post_ite, post_pokeData, Session.put_tick,
    Session.put_setMem, post_ptraceDetach_ended, implies_true, and_self]

theorem post_cleanup_ended : Post (cleanup c) s (fun _ t => s.Ended t) (fun _ t => s.Ended t) := by
  suffices h : Post (cleanup c) (s.put s.issued s.tracee.mem s.tracee.regs s.vars s.results)
      (fun _ t => s.Ended t) (fun _ t => s.Ended t) from h
  simp only [cleanup, post_bind, post_get, post_ite, post_restoreWord, Session.put_tick,
    Session.put_setMem, post_ptraceDetach_ended, Session.ended_put, implies_true, and_self]

end Stack

/-- What `stack()` does of its own. -/
def stackCommand (A : Arch R) : Command R StackVars StackEvent where
  arch := A
  name := "stack".toList
  timeoutText := ": timeout after PTRACE_ATTACH".toList
  start _ origEntry :=
    { origEntry, entryArmed := true, waitingForExit := false, retVaddr := 0, origRet := 0 }
  hit := Stack.hit A
  guard := Stack.guard
  cleanup := Stack.cleanup
  hit_handled _ _ _ := Stack.post_hit_handled
  guard_ended _ _ := Stack.post_guard_ended
  cleanup_ended _ _ := Stack.post_cleanup_ended

/-- `AttachEngine::stack`. -/
def stack (A : Arch R) (impl : Impl) (funcName : Text) (count timeoutMs : ℤ) (env : Script R) :
    Engine R StackVars StackEvent (List StackEvent) :=
  (stackCommand A).run impl funcName count timeoutMs env

end Uatu
