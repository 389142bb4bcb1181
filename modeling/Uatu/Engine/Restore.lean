import Uatu.Engine.StackInvariant
import Uatu.Engine.TraceInvariant

/-!
# What a sampling command leaves behind

A command that got past its first wait should, however it ends, leave a live tracee as it found
it: no breakpoint planted, not traced. `Command.Undone` says so of one run. Where nothing but the
state of the tracee makes requests fail, this comes down to the state in which the loop is left,
for any command whose handling of stops keeps a bookkeeping (`Command.Undoes`): the tracee must be
in a ptrace-stop when the cleanup starts. The loop is also left right after a `PTRACE_CONT`, and
then the cleanup throws at its first request, with the guard already disabled.
-/

namespace Uatu

open ByteMemory Throwing

variable {R V ν : Type}

/-- The loop is left for want of samples or of time. -/
def LoopExit.inTime : LoopExit → Bool
  | .waitFailed | .notStopped => false
  | _ => true

namespace Command

variable (C : Command R V ν) (impl : Impl) (funcName : Text) (count timeoutMs : ℤ) (env : Script R)
  (s₀ : Session R V ν)

/-- The command up to the end of its loop. -/
def sample : Engine R V ν (Target × LoopExit) := do
  let (c, deadline) ← C.prepare impl funcName count timeoutMs env
  C.arm c env
  let e ← C.guarded c deadline env
  return (c, e)

theorem run_eq : C.run impl funcName count timeoutMs env =
    C.sample impl funcName count timeoutMs env >>= fun p => C.finish p.1 env := by
  simp [run, sample]

/-- The tracee is left as it was before the attach, but for the bytes it writes itself; and if the
loop ended in time, the samples are returned. -/
structure Undone : Prop where
  mem : ∀ x, env.Keeps x →
    (finalState (C.run impl funcName count timeoutMs env) s₀).tracee.mem x = s₀.tracee.mem x
  detached : (finalState (C.run impl funcName count timeoutMs env) s₀).tracee.traced = false
  samples : ∀ c e s, C.sample impl funcName count timeoutMs env s₀ = .ok (c, e) s → e.inTime →
    ∃ t, C.run impl funcName count timeoutMs env s₀ = .ok s.results t

/-- What a command must do for its cleanup to undo it: its handling of a stop returns when no
request fails, and keeps a bookkeeping `Holds` of each byte the tracee never writes; its cleanup of
a stopped tracee then restores the bytes that `Left` does not name. -/
structure Undoes (Holds : Target → Addr → BitVec 8 → Mem → V → Prop)
    (Left : Target → V → Addr → BitVec 8 → Prop) : Prop where
  congr : ∀ {c x o m m' v}, m' x = m x → Holds c x o m v → Holds c x o m' v
  start : ∀ {c x o m}, m x = o → Holds c x o (plant C.arch.makePatchedWord m c.entryVaddr)
    (C.start c (readWord m c.entryVaddr))
  returns : ∀ {c r} {s : Session R V ν}, s.tracee.isStopped → s.fault = Fault.none →
    Post (C.hit c r) s (fun _ _ => True) (fun _ _ => False)
  hit : ∀ {c r x o} {s : Session R V ν}, Holds c x o s.tracee.mem s.vars →
    Post (C.hit c r) s (fun _ t => Holds c x o t.tracee.mem t.vars) (fun _ _ => True)
  cleanup : ∀ {c} {s : Session R V ν}, s.tracee.isStopped → s.fault = Fault.none →
    Post (C.cleanup c) s
      (fun _ t => t.results = s.results ∧ t.tracee.traced = false ∧ ∀ x o,
        Holds c x o s.tracee.mem s.vars → (t.tracee.mem x = o ↔ ¬ Left c s.vars x o))
      (fun _ _ => False)
  cleanup_running : ∀ {c} {s : Session R V ν}, ¬ s.tracee.isStopped →
    Post (C.cleanup c) s (fun _ t => t.tracee = s.tracee) (fun _ t => t.tracee = s.tracee)

variable {C impl funcName count timeoutMs env s₀}

/-- Past the first wait the tracee is traced, has kept its bytes and does not run; only a negative
`count` throws. -/
theorem post_prepare (ha : env.Attaches impl funcName s₀) :
    Post (C.prepare impl funcName count timeoutMs env) s₀
      (fun _ t => 0 ≤ count ∧ t.tracee.traced = true ∧
        (t.tracee.isStopped ∨ t.tracee.status = .exited) ∧
        ∀ x, env.Keeps x → t.tracee.mem x = s₀.tracee.mem x)
      (fun _ t => count < 0 ∧ t.tracee.traced = true) := by
  obtain ⟨finder, info, hfinder, hfind, haddr⟩ := ha.found
  obtain ⟨status, t, hwait⟩ := ha.waited
  have ht : t.tracee.traced = true ∧ (t.tracee.isStopped ∨ t.tracee.status = .exited) ∧
      ∀ x, env.Keeps x → t.tracee.mem x = s₀.tracee.mem x := by
    refine (post_waitpidTimeout (E := fun _ _ => True) (Q := fun o t => o ≠ none →
      t.tracee.traced = true ∧ (t.tracee.isStopped ∨ t.tracee.status = .exited) ∧
      ∀ x, env.Keeps x → t.tracee.mem x = s₀.tracee.mem x)
      (fun h => (h rfl).elim) fun b hb sig hsig _ => ?_).ok hwait (by simp)
    exact ⟨Session.reported_traced _ b, by simpa using Tracee.advance_status _ sig b hsig,
      fun x hx => Session.reported_mem _ (hx.first hb)⟩
  simp only [prepare, hfinder, hfind, haddr, if_false, ha.attached, post_bind, post_modify]
  refine post_of_ok hwait ?_
  simp only [post_bind, post_modify, post_ite, post_throw, post_pure]
  exact ⟨fun hc => ⟨hc, ht.1⟩, fun hc => ⟨not_lt.1 hc, ht⟩⟩

/-- Up to the end of the loop, of a run in which only the state of the tracee makes requests
fail. -/
theorem Undoes.post_sample {Holds : Target → Addr → BitVec 8 → Mem → V → Prop}
    {Left : Target → V → Addr → BitVec 8 → Prop} (hC : C.Undoes Holds Left)
    (ha : env.Attaches impl funcName s₀) (hf : env.FaultFree) :
    Post (C.sample impl funcName count timeoutMs env) s₀
      (fun p t => 0 ≤ count ∧ t.tracee.traced = true ∧
        ∀ x, env.Keeps x → Holds p.1 x (s₀.tracee.mem x) t.tracee.mem t.vars)
      (fun _ t => t.tracee.traced = true ∧ (count < 0 ∨ t.tracee.status = .exited)) := by
  simp only [sample, post_bind]
  refine (post_prepare ha).mono (fun p s hs => ?_) fun _ t ht => ⟨ht.2, .inl ht.1⟩
  obtain ⟨hcount, htraced, hstatus, hmem⟩ := hs
  refine post_arm (fun t ht => ?_) fun e t k q hq ht => ⟨ht ▸ htraced, .inr ?_⟩
  · simp only [guarded, post_tryCatch]
    have hstart : ∀ x, env.Keeps x → Holds p.1 x (s₀.tracee.mem x) t.tracee.mem t.vars := by
      rw [ht.tracee, ht.vars]
      exact fun x hx => hC.start (hmem x hx)
    refine (post_loop_keeps (K := env.Keeps)
      (J := fun m v => ∀ x, env.Keeps x → Holds p.1 x (s₀.tracee.mem x) m v)
      (fun hm hJ x hx => hC.congr (hm x hx) (hJ x hx)) (fun x hx r hr b hb => hx.round hr hb)
      ⟨hstart, by rw [ht.tracee]; exact htraced⟩ (E := fun _ _ => False)
      fun r hr t hst hft hJ => ?_).mono
      (fun e t' ht' => ⟨hcount, ht'.2, ht'.1⟩) fun _ _ h => h.elim
    exact ((hC.returns hst (hft.trans (hf.hit r hr))).forall
      fun x : {x // env.Keeps x} => hC.hit (hJ.1 x.1 x.2)).mono
      (fun _ t' ht' x hx => ht'.2 ⟨x, hx⟩) fun _ _ h => h
  · rw [ht]
    exact hstatus.resolve_left fun hst =>
      hq (answersAt_of_none (s := s.withFault env.setupFault) hst hf.setup k q)

/-- The cleanup of a tracee that is not in a ptrace-stop throws or fails silently, and leaves it
traced. -/
theorem Undoes.post_finish_running {Holds : Target → Addr → BitVec 8 → Mem → V → Prop}
    {Left : Target → V → Addr → BitVec 8 → Prop} (hC : C.Undoes Holds Left) {c : Target}
    {s : Session R V ν} (hs : ¬ (late env s.tracee).isStopped) (ht : s.tracee.traced = true) :
    Post (C.finish c env) s (fun _ t => t.tracee.traced = true)
      (fun _ t => t.tracee.traced = true) := by
  simp only [finish, post_bind, post_modify, post_get, post_pure]
  refine (hC.cleanup_running (s := (s.mapTracee (late env)).withFault env.cleanupFault) hs).mono
    (fun _ t h => ?_) fun _ t h => ?_ <;> simp [h, ht]

/-- The cleanup of a stopped tracee. -/
theorem Undoes.post_finish {Holds : Target → Addr → BitVec 8 → Mem → V → Prop}
    {Left : Target → V → Addr → BitVec 8 → Prop} (hC : C.Undoes Holds Left) {c : Target}
    {s : Session R V ν} (hs : (late env s.tracee).isStopped) (hf : env.FaultFree)
    {m₀ : Mem} (hm : ∀ x, env.Keeps x → Holds c x (m₀ x) s.tracee.mem s.vars) :
    Post (C.finish c env) s
      (fun l t => l = s.results ∧ t.tracee.traced = false ∧ ∀ x, env.Keeps x →
        (t.tracee.mem x = m₀ x ↔ ¬ Left c s.vars x (m₀ x))) (fun _ _ => False) := by
  simp only [finish, post_bind, post_modify, post_get, post_pure]
  refine (hC.cleanup (s := (s.mapTracee (late env)).withFault env.cleanupFault) hs hf.cleanup).mono
    (fun _ t h => ⟨h.1, h.2.1, fun x hx => h.2.2 x _ ?_⟩) fun _ _ h => h
  exact hC.congr (hx.late_mem s.tracee) (hm x hx)

/-- After the loop, the cleanup of a stopped tracee undoes the command where nothing is left. -/
theorem Undoes.undone_iff_of_stopped {Holds : Target → Addr → BitVec 8 → Mem → V → Prop}
    {Left : Target → V → Addr → BitVec 8 → Prop} (hC : C.Undoes Holds Left) (hf : env.FaultFree)
    {c : Target} {e : LoopExit} {s : Session R V ν}
    (hrun : C.sample impl funcName count timeoutMs env s₀ = .ok (c, e) s)
    (hmem : ∀ x, env.Keeps x → Holds c x (s₀.tracee.mem x) s.tracee.mem s.vars)
    (hs : (late env s.tracee).isStopped) :
    C.Undone impl funcName count timeoutMs env s₀ ↔
      ∀ x, env.Keeps x → ¬ Left c s.vars x (s₀.tracee.mem x) := by
  have hfin : C.run impl funcName count timeoutMs env s₀ = C.finish c env s := by
    rw [run_eq, bind_ok hrun]
  have hp := hC.post_finish hs hf hmem
  cases hr : C.finish c env s with
  | error e' t => exact (hp.error hr).elim
  | ok l t =>
    obtain ⟨rfl, hdetached, hbytes⟩ := hp.ok hr
    have ht : finalState (C.run impl funcName count timeoutMs env) s₀ = t :=
      finalState_ok (hfin.trans hr)
    constructor
    · exact fun h x hx => (hbytes x hx).1 (ht ▸ h.mem x hx)
    · intro hleft
      refine ⟨fun x hx => ?_, ?_, fun c' e' s' hs' _ => ⟨t, ?_⟩⟩
      · rw [ht]
        exact (hbytes x hx).2 (hleft x hx)
      · rw [ht, hdetached]
      · rw [hrun] at hs'
        cases hs'
        exact hfin.trans hr

/-- The cleanup of a tracee that is not in a stop leaves it attached. -/
theorem Undoes.not_undone_of_running {Holds : Target → Addr → BitVec 8 → Mem → V → Prop}
    {Left : Target → V → Addr → BitVec 8 → Prop} (hC : C.Undoes Holds Left)
    {c : Target} {e : LoopExit} {s : Session R V ν}
    (hrun : C.sample impl funcName count timeoutMs env s₀ = .ok (c, e) s)
    (htraced : s.tracee.traced = true) (hs : ¬ (late env s.tracee).isStopped) :
    ¬ C.Undone impl funcName count timeoutMs env s₀ := by
  intro h
  have hfin : C.run impl funcName count timeoutMs env s₀ = C.finish c env s := by
    rw [run_eq, bind_ok hrun]
  have hd := h.detached
  have hp := hC.post_finish_running (c := c) hs htraced
  cases hr : C.finish c env s with
  | error e' t =>
    have ht := hp.error hr
    rw [finalState_error (hfin.trans hr), ht] at hd
    cases hd
  | ok l t =>
    have ht := hp.ok hr
    rw [finalState_ok (hfin.trans hr), ht] at hd
    cases hd

/-- **What a command leaves behind.** Of the runs past the first wait in which only the state of
the tracee makes requests fail and the tracee does not exit, those leave it as they found it in
which `count` is not negative and every cleanup starts in a ptrace-stop and leaves nothing out. -/
theorem Undoes.undone_iff {Holds : Target → Addr → BitVec 8 → Mem → V → Prop}
    {Left : Target → V → Addr → BitVec 8 → Prop} (hC : C.Undoes Holds Left)
    (ha : env.Attaches impl funcName s₀) (hf : env.FaultFree)
    (hl : (finalState (C.run impl funcName count timeoutMs env) s₀).tracee.status ≠ .exited) :
    C.Undone impl funcName count timeoutMs env s₀ ↔
      0 ≤ count ∧ ∀ c e s, C.sample impl funcName count timeoutMs env s₀ = .ok (c, e) s →
        (late env s.tracee).isStopped ∧
        ∀ x, env.Keeps x → ¬ Left c s.vars x (s₀.tracee.mem x) := by
  have hsample : Post (C.sample impl funcName count timeoutMs env) s₀ _ _ := hC.post_sample ha hf
  cases hrun : C.sample impl funcName count timeoutMs env s₀ with
  | error e t =>
    -- past a throw nothing cleans up: the tracee stays attached
    have ht := hsample.error hrun
    have hfin : finalState (C.run impl funcName count timeoutMs env) s₀ = t :=
      finalState_error (by rw [run_eq, bind_error hrun])
    rw [hfin] at hl
    constructor
    · intro h
      have hd := h.detached
      rw [hfin, ht.1] at hd
      cases hd
    · rintro ⟨hc, -⟩
      exact (ht.2.elim (not_lt.2 hc) hl).elim
  | ok p s =>
    obtain ⟨c, e⟩ := p
    obtain ⟨hcount, htraced, hmem⟩ := hsample.ok hrun
    simp only [hcount, true_and, EStateM.Result.ok.injEq, Prod.mk.injEq, and_imp]
    have hsole : (∀ c' e' s', c = c' → e = e' → s = s' → (late env s'.tracee).isStopped ∧
        ∀ x, env.Keeps x → ¬ Left c' s'.vars x (s₀.tracee.mem x)) ↔
        (late env s.tracee).isStopped ∧
        ∀ x, env.Keeps x → ¬ Left c s.vars x (s₀.tracee.mem x) :=
      ⟨fun h => h c e s rfl rfl rfl, by rintro h _ _ _ rfl rfl rfl; exact h⟩
    rw [hsole]
    by_cases hs : (late env s.tracee).isStopped
    · rw [hC.undone_iff_of_stopped hf hrun hmem hs]
      exact (and_iff_right hs).symm
    · exact iff_of_false (hC.not_undone_of_running hrun htraced hs) fun h => hs h.1

end Command

/-! ## `trace()` and `stack()` -/

variable {A : Arch R}

namespace Trace

/-- The byte at `x` belongs to a return breakpoint that the cleanup leaves in: one planted at
address `0`, which `ret_vaddr != 0` takes for none. -/
def Left (A : Arch R) (c : Target) (v : TraceVars) (x : Addr) (o : BitVec 8) : Prop :=
  (v.waitingForExit = true ∧ v.retVaddr = 0) ∧ ¬ InWord c.entryVaddr x ∧
    shown A.makePatchedWord (v.retVaddr, v.origRet) x o ≠ o

theorem cleanup_mem {c : Target} {x : Addr} {o : BitVec 8} {m : Mem} {v : TraceVars}
    (h : Holds A c x o m v) :
    writeWord (if v.waitingForExit = true ∧ v.retVaddr ≠ 0 then exitMem m v else m)
      c.entryVaddr v.origEntry x = o ↔ ¬ Left A c v x o := by
  by_cases hx : InWord c.entryVaddr x
  · rw [writeWord_of_inWord _ _ hx, h.entry hx]
    simp [Left, hx]
  rw [writeWord_of_not_inWord _ _ hx]
  by_cases hw : v.waitingForExit = true
  · by_cases hz : v.retVaddr = 0
    · have hm := h.mem
      rw [planted, if_pos hw] at hm
      rw [if_neg fun h => h.2 hz, hm, Left]
      simp [hw, hz, hx]
    · rw [if_pos ⟨hw, hz⟩, h.exitMem hw]
      simp only [Left, hz, and_false, false_and, not_false_eq_true]
  · have hm := h.mem
    rw [planted, if_neg hw, shown_of_not_inWord hx] at hm
    rw [if_neg fun h => hw h.1, hm]
    simp [Left, hw]

theorem undoes : (traceCommand A).Undoes (Holds A) (Left A) where
  congr hm h := h.congr hm
  start := holds_start
  returns := post_hit_returns
  hit := post_hit_holds
  cleanup {c s} hs hf := by
    have hans : ∀ k q, s.answersAt k q := answersAt_of_none hs hf
    have hmem := fun x o (h : Holds A c x o s.tracee.mem s.vars) => cleanup_mem h
    rw [← s.put_self]
    simp only [traceCommand, cleanup, post_bind, post_get, post_ite, post_restoreWord,
      post_ptraceDetach, Session.put_answers, Session.put_tick, Session.put_setMem,
      Session.put_vars, Session.put_tracee, hans, true_implies, not_true_eq_false, false_implies,
      and_true]
    refine ⟨fun hw => ⟨rfl, rfl, ?_⟩, fun hw => ⟨rfl, rfl, ?_⟩⟩
    · rw [if_pos hw] at hmem
      exact hmem
    · rw [if_neg hw] at hmem
      exact hmem
  cleanup_running {c s} hs := by
    have hno : ∀ q, ¬ s.answers q := not_answers_of_not_stopped hs
    simp only [traceCommand, cleanup, post_bind, post_get, post_ite, post_restoreWord]
    simp [hno]

end Trace

namespace Stack

/-- The byte at `x` belongs to a return breakpoint that the cleanup leaves in: one planted at
address `0`, which `ret_vaddr` takes for none. -/
def Left (A : Arch R) (_ : Target) (v : StackVars) (x : Addr) (o : BitVec 8) : Prop :=
  (v.waitingForExit = true ∧ v.retVaddr = 0) ∧
    shown A.makePatchedWord (v.retVaddr, v.origRet) x o ≠ o

theorem unplanted_apply {c : Target} {x : Addr} {o : BitVec 8} {m : Mem} {v : StackVars}
    (h : Holds A c x o m v) : unplanted c m v x = o ↔ ¬ Left A c v x o := by
  unfold unplanted unplantedRet
  by_cases hw : v.waitingForExit = true
  · rw [if_neg (by simp [h.one hw])]
    by_cases hz : v.retVaddr = 0
    · have hm := h.mem
      rw [planted, if_pos hw] at hm
      rw [if_neg fun h => h.2 hz, hm, Left, and_iff_right ⟨hw, hz⟩, not_not]
    · rw [if_pos ⟨hw, hz⟩, h.exitMem hw, Left]
      simp only [hz, and_false, false_and, not_false_eq_true]
  · rw [iff_true_right fun hl => hw hl.1.1]
    exact h.guarded.unplanted fun h => (hw h).elim

theorem undoes : (stackCommand A).Undoes (Holds A) (Left A) where
  congr hm h := h.congr hm
  start := holds_start
  returns := post_hit_returns
  hit h := (post_hit_holds h).mono (fun _ _ h => h) fun _ _ _ => trivial
  cleanup hs hf := (post_cleanup hs hf).mono
    (fun _ t ht => ⟨ht.1, ht.2.1, fun x o h => by rw [ht.2.2]; exact unplanted_apply h⟩)
    fun _ _ h => h
  cleanup_running {c s} hs := by
    have hno : ∀ k q, ¬ s.answersAt k q := fun k q => by simp [Session.answersAt, hs]
    rw [← s.put_self]
    simp only [stackCommand, cleanup, post_bind, post_get, post_ite, post_restoreWord,
      post_ptraceDetach, Session.put_answers, Session.put_tick, Session.put_tracee, hno]
    simp

end Stack

/-! ## Both commands -/

/-- **What `trace()` and `stack()` leave behind.** A live tracee is left as it was found, and the
samples are returned, exactly in the runs with a `count` that is not negative in which the cleanup
starts with the tracee in a ptrace-stop and no return breakpoint is planted at address `0`. -/
theorem sampling_undone_iff (A : Arch R) (impl : Impl) (funcName : Text) (count timeoutMs : ℤ)
    (env : Script R) (hf : env.FaultFree) :
    (∀ s₀ : Session R TraceVars TraceNode, env.Attaches impl funcName s₀ →
      (finalState (trace A impl funcName count timeoutMs env) s₀).tracee.status ≠ .exited →
      ((traceCommand A).Undone impl funcName count timeoutMs env s₀ ↔
        0 ≤ count ∧ ∀ c e s,
          (traceCommand A).sample impl funcName count timeoutMs env s₀ = .ok (c, e) s →
          (Command.late env s.tracee).isStopped ∧
          ∀ x, env.Keeps x → ¬ Trace.Left A c s.vars x (s₀.tracee.mem x))) ∧
    (∀ s₀ : Session R StackVars StackEvent, env.Attaches impl funcName s₀ →
      (finalState (stack A impl funcName count timeoutMs env) s₀).tracee.status ≠ .exited →
      ((stackCommand A).Undone impl funcName count timeoutMs env s₀ ↔
        0 ≤ count ∧ ∀ c e s,
          (stackCommand A).sample impl funcName count timeoutMs env s₀ = .ok (c, e) s →
          (Command.late env s.tracee).isStopped ∧
          ∀ x, env.Keeps x → ¬ Stack.Left A c s.vars x (s₀.tracee.mem x))) :=
  ⟨fun _ ha hl => Trace.undoes.undone_iff ha hf hl, fun _ ha hl => Stack.undoes.undone_iff ha hf hl⟩

/-- The deadline passes at the head of the loop, before anything is resumed. -/
theorem sampling_undone_iff_deadline :
    let env : Script X86Regs := .sampling []
    ((traceCommand x86_64).Undone Impl.single "f".toList 1 1 env (.single default) ↔
      (0 : ℤ) ≤ 1 ∧ ∀ c e s, (traceCommand x86_64).sample Impl.single "f".toList 1 1 env
          (.single default) = .ok (c, e) s →
        (Command.late env s.tracee).isStopped ∧
        ∀ x, env.Keeps x → ¬ Trace.Left x86_64 c s.vars x (Mem.single x)) ∧
    ((stackCommand x86_64).Undone Impl.single "f".toList 1 1 env (.single default) ↔
      (0 : ℤ) ≤ 1 ∧ ∀ c e s, (stackCommand x86_64).sample Impl.single "f".toList 1 1 env
          (.single default) = .ok (c, e) s →
        (Command.late env s.tracee).isStopped ∧
        ∀ x, env.Keeps x → ¬ Stack.Left x86_64 c s.vars x (Mem.single x)) :=
  have h := sampling_undone_iff x86_64 Impl.single "f".toList 1 1 (Script.sampling [])
    ⟨rfl, rfl, by simp [Script.sampling], by simp [Script.sampling], rfl, rfl⟩
  ⟨h.1 _ (attaches_sampling ..) (by decide), h.2 _ (attaches_sampling ..) (by decide)⟩

/-- The deadline passes between a `PTRACE_CONT` and the wait: `trace()` throws, with the tracee
traced and its breakpoint planted. -/
theorem trace_leaves_breakpoint :
    let env : Script X86Regs := .sampling [{ Round.polling [] with now2 := 1000000 }]
    let s₀ : Session X86Regs TraceVars TraceNode := .single default
    env.FaultFree ∧ env.Attaches Impl.single "f".toList s₀ ∧ env.Keeps 0x1000 ∧
    (finalState (trace x86_64 Impl.single "f".toList 1 1 env) s₀).tracee.status = .running 0 ∧
    (finalState (trace x86_64 Impl.single "f".toList 1 1 env) s₀).tracee.mem 0x1000 = 0xCC ∧
    ¬ (traceCommand x86_64).Undone Impl.single "f".toList 1 1 env s₀ := by
  refine ⟨⟨rfl, rfl, by simp [Script.sampling, Round.polling],
    by simp [Script.sampling, Round.polling], rfl, rfl⟩, attaches_sampling .., ?_, by decide,
    by decide, fun h => ?_⟩
  · simp [Script.Keeps, Script.behaviours, behaviours, Script.sampling, Round.polling,
      Behaviour.Keeps, Behaviour.stop]
  · exact absurd h.detached (by decide)

end Uatu
