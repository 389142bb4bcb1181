import Uatu.Engine.StackInvariant

/-!
# Failing requests in the loop of `stack()`

The guard of `stack()` refers to the flags and the saved words themselves, so it sees them as they
are when a request throws. `Stack.Guarded` holds at each of these points; with page `0` unmapped
the flags never stand for a return breakpoint at address `0`, which the guard would pass over. So
whichever requests fail, a loop that is left with the tracee stopped leaves its memory as it was.
-/

namespace Uatu

open ByteMemory Throwing

variable {R : Type} {A : Arch R} {c : Target}

namespace Stack

/-- A return breakpoint has an address other than `0`. -/
def RetNonzero (v : StackVars) : Prop := v.waitingForExit = true → v.retVaddr ≠ 0

theorem post_hit_retNonzero {r : Round R} {s : Session R StackVars StackEvent}
    (hzero : ∀ n, s.fault n (.peek 0) = true) (h : RetNonzero s.vars) :
    Post (hit A c r) s (fun _ t => RetNonzero t.vars) (fun _ t => RetNonzero t.vars) := by
  rw [post_hit]
  refine ⟨fun _ => ⟨fun hhit => post_entryHit ?_, fun _ => ⟨fun _ => ?_, fun _ => h⟩⟩, fun _ => h⟩
  · have hnoret : ∀ {P : Prop}, s.vars.waitingForExit = true → P := by simp [hhit.1]
    exact {
      takeOut := fun _ => h
      setRegs := fun _ => h
      count := fun _ _ _ => h
      peekRet := fun _ _ _ => hnoret
      pokeRet := fun _ _ _ => hnoret
      -- the word at the return address was read, so the address is not `0`
      exitArmed := fun _ _ _ hpeek _ _ (hz : entryRet .. = 0) =>
        not_answersAt_of_fault (hzero _) (hz ▸ hpeek)
      peekEntry := fun _ _ _ => h
      pokeEntry := fun _ _ _ => h
      rearmed := fun _ _ _ => h }
  · have hclear : ∀ v : StackVars, RetNonzero { v with waitingForExit := false } := by
      simp [RetNonzero]
    rw [post_returnHit rfl]
    exact ⟨fun _ => ⟨fun _ => ⟨fun _ => ⟨fun _ => hclear _, fun _ => hclear _⟩,
      fun _ => hclear _⟩, fun _ => h⟩, fun _ => h⟩

/-- The loop, whichever requests fail in it, keeps the bookkeeping of a byte the tracee never
writes, and if it throws leaves it right enough for the guard, with the tracee stopped. -/
theorem post_loop_guarded {deadline : ℤ} {rounds : List (Round R)} {x : Addr} {o : BitVec 8}
    {s : Session R StackVars StackEvent}
    (hx : ∀ r ∈ rounds, ∀ b ∈ behaviours r.polls, b.Keeps x)
    (hzero : ∀ r ∈ rounds, ∀ n, r.hitFault n (.peek 0) = true)
    (h : Holds A c x o s.tracee.mem s.vars) (hr : RetNonzero s.vars) :
    Post ((stackCommand A).loop c deadline rounds) s
      (fun _ t => Guarded c x o t.tracee.mem t.vars ∧ RetNonzero t.vars)
      (fun _ t => t.tracee.isStopped ∧ Guarded c x o t.tracee.mem t.vars ∧ RetNonzero t.vars) := by
  refine (Command.post_loop_keeps (J := fun m v => Holds A c x o m v ∧ RetNonzero v) (K := (· = x))
    (fun hm hJ => ⟨hJ.1.congr (hm x rfl), hJ.2⟩) (fun y hy r hr b hb => hy ▸ hx r hr b hb)
    ⟨⟨h, hr⟩, rfl⟩ fun r hr t hst hf hJ => ?_).mono
    (fun _ t ht => ⟨ht.1.1.guarded, ht.1.2⟩) fun _ _ h => h
  exact ((post_hit_handled.and (post_hit_holds hJ.1.1)).and
    (post_hit_retNonzero (by rw [hf]; exact hzero r hr) hJ.1.2)).mono
    (fun _ _ h => ⟨h.1.2, h.2⟩) fun _ _ h => ⟨h.1.1.isStopped.trans hst, h.1.2, h.2⟩

end Stack

open Stack

/-- **Failing requests in the loop of `stack()`.** Whichever requests fail in the loop, of a tracee
with page `0` unmapped: if the loop is left with the tracee stopped, by a `break` or by a throw, and
the requests that follow succeed, every byte that the tracee never writes is as before the
attach. -/
theorem stack_fault_atomic {impl : Impl} {funcName : Text} {count timeoutMs deadline : ℤ}
    {env : Script R} {s₀ s s₁ : Session R StackVars StackEvent}
    (hprep : (stackCommand A).prepare impl funcName count timeoutMs env s₀ = .ok (c, deadline) s)
    (harm : (stackCommand A).arm c env s = .ok () s₁)
    (hzero : ∀ r ∈ env.rounds, ∀ n, r.hitFault n (.peek 0) = true)
    (hguard : env.guardFault = Fault.none) (hcleanup : env.cleanupFault = Fault.none)
    (hleft : ∀ e t, (stackCommand A).loop c deadline env.rounds s₁ = .ok e t →
      (Command.late env t.tracee).isStopped) (x : Addr) (hx : env.Keeps x) :
    (finalState (stack A impl funcName count timeoutMs env) s₀).tracee.mem x = s₀.tracee.mem x := by
  have hmem : s.tracee.mem x = s₀.tracee.mem x := (Command.prepared_of_prepare hprep).keeps hx
  have ht := Command.armed_of_arm harm
  have hstart : Holds A c x (s₀.tracee.mem x) s₁.tracee.mem s₁.vars := by
    rw [ht.tracee, ht.vars]
    exact holds_start hmem
  have hloop : Post ((stackCommand A).loop c deadline env.rounds) s₁ _ _ :=
    post_loop_guarded (fun r hr b hb => hx.round hr hb) hzero hstart
      (by rw [ht.vars]; simp [RetNonzero, stackCommand])
  cases hrun : (stackCommand A).loop c deadline env.rounds s₁ with
  | ok e t =>
    obtain ⟨hg, hr⟩ := hloop.ok hrun
    have hlate : Guarded c x (s₀.tracee.mem x) (Command.late env t.tracee).mem t.vars :=
      hg.congr (hx.late_mem t.tracee)
    have hfinish : Post ((stackCommand A).finish c env) t
        (fun _ u => u.tracee.mem x = s₀.tracee.mem x)
        (fun _ u => u.tracee.mem x = s₀.tracee.mem x) := by
      simp only [Command.finish, post_bind, post_modify, post_get, post_pure]
      refine (post_cleanup (s := (t.mapTracee (Command.late env)).withFault env.cleanupFault)
        (hleft e t hrun) hcleanup).mono (fun _ u hu => ?_) fun _ _ h => h.elim
      rw [hu.2.2]
      exact hlate.unplanted hr
    exact post_finalState.1 ((post_congr (Command.run_of_loop_ok hprep harm hrun)).2 hfinish)
  | error e t =>
    obtain ⟨hst, hg, hr⟩ := hloop.error hrun
    refine Command.post_run_of_loop_error hprep harm hrun
      (P := fun u => u.tracee.mem x = s₀.tracee.mem x)
      ((post_guard (s := t.withFault env.guardFault) hst hguard).mono
        (fun _ u hu => ?_) fun _ _ h => h.elim)
    rw [hu.2.2]
    exact hg.unplanted hr

/-- The return address of the first sampled call cannot be read: the loop throws. -/
theorem stack_fault_atomic_peek :
    (finalState (stack x86_64 Impl.single "f".toList 2 1 (.sampling
      [{ Round.polling [(0, .change (.trapAt 0x1000))] with
        hitFault := fun _ q => decide (q = .peek 0 ∨ q = .peek 0x2000) }]))
      (.single default)).tracee.mem 0x1000 = Mem.single 0x1000 := by
  refine stack_fault_atomic rfl rfl (fun r hr n => ?_) rfl rfl (fun e t h => ?_) 0x1000 ?_
  · rw [List.mem_singleton.1 hr]
    simp
  · have hok := congrArg (fun res => match res with | .ok .. => true | .error .. => false) h
    exact Bool.noConfusion (hok.symm.trans (by rfl : _ = false))
  · simp [Script.Keeps, Script.behaviours, behaviours, Script.sampling, Round.polling,
      Behaviour.Keeps, Behaviour.stop, Behaviour.trapAt]

end Uatu
