import Uatu.Engine.TraceInvariant

/-!
# A failing request in the loop of `trace()`

When a request fails while a stop is handled, the loop of `trace()` throws and `PtraceGuard` writes
the entry word back and detaches. It knows neither of the breakpoint at the return address nor of
the program counter, which on x86_64 is one past the breakpoint until `set_regs` has rewound it.
`trace_fault_atomic_iff` says for which request, in which state of the loop, this is enough.
-/

namespace Uatu

open ByteMemory Throwing

variable {R : Type} (A : Arch R) (c : Target) (env : Script R) (m₀ : Mem)

namespace Trace

/-- The tracee is detached, with its memory as it was, and with the program counter at the
breakpoint if the registers of the stop had been read, which is the first request of its
handling. -/
structure FaultAtomic (s : Session R TraceVars TraceNode) (k : ℕ)
    (t : Session R TraceVars TraceNode) : Prop where
  mem : ∀ x, env.Keeps x → t.tracee.mem x = m₀ x
  ip : 1 ≤ k → A.getIp t.tracee.regs = (planted c s.vars).1
  detached : t.tracee.traced = false

/-- A breakpoint left in place is not visible: it hides no byte outside of the entry word. -/
def Harmless (p : Addr × Word) : Prop :=
  ∀ x, env.Keeps x → ¬ InWord c.entryVaddr x → shown A.makePatchedWord p x (m₀ x) = m₀ x

/-- The guard makes up for the failure of request number `k` of the handling of the stop in `s`.
Of an entry hit these are `GETREGS`, `POKE` of the entry, `PEEK` of the stack, `PEEK` and `POKE` of
the return address, `SETREGS`; of a return hit `GETREGS`, `POKE` of the return address, `SETREGS`,
`PEEK` and `POKE` of the entry. -/
def MadeUp (s : Session R TraceVars TraceNode) (k : ℕ) : Prop :=
  if s.vars.waitingForExit then
    (k = 0 ∨ A.pcAdjustAfterTrap = 0 ∨ 3 ≤ k) ∧
      (2 ≤ k ∨ Harmless A c env m₀ (s.vars.retVaddr, s.vars.origRet))
  else
    (k = 0 ∨ A.pcAdjustAfterTrap = 0) ∧
      (k ≤ 4 ∨ Harmless A c env m₀ (entryRet A c s.tracee.mem s.vars s.tracee.regs,
        readWord (entryMem c s.tracee.mem s.vars)
          (entryRet A c s.tracee.mem s.vars s.tracee.regs)))

/-- Writing the entry word back gives the memory from before the attach. -/
def Restores (m : Mem) (w : Word) : Prop :=
  ∀ x, env.Keeps x → writeWord m c.entryVaddr w x = m₀ x

variable {A c env m₀}

theorem post_guard {s : Session R TraceVars TraceNode} (hs : s.tracee.isStopped)
    (hf : s.fault = Fault.none) :
    Post (guard c) s (fun _ t =>
      t.tracee.mem = writeWord s.tracee.mem c.entryVaddr s.vars.guardWord ∧
      t.tracee.regs = s.tracee.regs ∧ t.tracee.traced = false) (fun _ _ => False) := by
  have hans : ∀ k q, s.answersAt k q := answersAt_of_none hs hf
  rw [← s.put_self]
  simp [guard, hans]

section Memory

variable {m : Mem} {v : TraceVars} {w : Word} {p : Addr × Word} {regs : R} {now : Word}

theorem restores_of_eq (hm : ∀ x, env.Keeps x → m x = m₀ x)
    (hs : ∀ x, env.Keeps x → Saves c.entryVaddr w x (m₀ x)) : Restores c env m₀ m w :=
  fun x hx => writeWord_saves (fun _ => hm x hx) (hs x hx)

/-- With a breakpoint planted that the guard does not know of, its bytes outside of the entry word
remain. -/
theorem restores_iff_harmless
    (hm : ∀ x, env.Keeps x → m x = shown A.makePatchedWord p x (m₀ x))
    (hs : ∀ x, env.Keeps x → Saves c.entryVaddr w x (m₀ x)) :
    Restores c env m₀ m w ↔ Harmless A c env m₀ p := by
  constructor
  · intro h x hx hw
    rw [← hm x hx, ← h x hx, writeWord_of_not_inWord _ _ hw]
  · intro h x hx
    exact writeWord_saves (fun hw => (hm x hx).trans (h x hx hw)) (hs x hx)

variable (h : ∀ x, env.Keeps x → Holds A c x (m₀ x) m v)
include h

theorem saves_guardWord (x : Addr) (hx : env.Keeps x) :
    Saves c.entryVaddr v.guardWord x (m₀ x) :=
  (h x hx).guard ▸ (h x hx).entry

theorem restores_entry (hw : v.waitingForExit = false) : Restores c env m₀ m v.guardWord := by
  intro x hx
  rw [(h x hx).guard]
  exact (h x hx).entryMem hw

theorem restores_entryMem (hw : v.waitingForExit = false) :
    Restores c env m₀ (entryMem c m v) v.guardWord :=
  restores_of_eq (fun x hx => (h x hx).entryMem hw) (saves_guardWord h)

theorem restores_exitArmed (hw : v.waitingForExit = false) :
    Restores c env m₀ (exitArmedMem A c m v regs) v.guardWord ↔
      Harmless A c env m₀ (entryRet A c m v regs,
        readWord (entryMem c m v) (entryRet A c m v regs)) :=
  restores_iff_harmless (fun x hx => plant_apply ((h x hx).entryMem hw)) (saves_guardWord h)

theorem restores_ret (hw : v.waitingForExit = true) :
    Restores c env m₀ m v.guardWord ↔ Harmless A c env m₀ (v.retVaddr, v.origRet) := by
  refine restores_iff_harmless (fun x hx => ?_) (saves_guardWord h)
  rw [(h x hx).mem, planted, if_pos hw]

theorem restores_exitMem (hw : v.waitingForExit = true) :
    Restores c env m₀ (exitMem m v) v.guardWord :=
  restores_of_eq (fun x hx => (h x hx).exitMem hw) (saves_guardWord h)

end Memory

section MadeUp

variable {s : Session R TraceVars TraceNode} {k : ℕ}

theorem madeUp_entry (hw : s.vars.waitingForExit = false) :
    MadeUp A c env m₀ s k ↔ (k = 0 ∨ A.pcAdjustAfterTrap = 0) ∧
      (k ≤ 4 ∨ Harmless A c env m₀ (entryRet A c s.tracee.mem s.vars s.tracee.regs,
        readWord (entryMem c s.tracee.mem s.vars)
          (entryRet A c s.tracee.mem s.vars s.tracee.regs))) := by
  simp [MadeUp, hw]

theorem madeUp_return (hw : s.vars.waitingForExit = true) :
    MadeUp A c env m₀ s k ↔ (k = 0 ∨ A.pcAdjustAfterTrap = 0 ∨ 3 ≤ k) ∧
      (2 ≤ k ∨ Harmless A c env m₀ (s.vars.retVaddr, s.vars.origRet)) := by
  simp [MadeUp, hw]

/-- On x86_64 the guard makes up for a failure of `GETREGS` while the entry breakpoint is planted,
of the requests that plant it again, and, where the return breakpoint hides nothing, of `GETREGS`
during a sampled call. -/
theorem madeUp_x86_64 {c : Target} {env : Script X86Regs} {k : ℕ}
    {s : Session X86Regs TraceVars TraceNode} :
    MadeUp x86_64 c env m₀ s k ↔
      if s.vars.waitingForExit then
        3 ≤ k ∨ k = 0 ∧ Harmless x86_64 c env m₀ (s.vars.retVaddr, s.vars.origRet)
      else k = 0 := by
  have hadj : x86_64.pcAdjustAfterTrap ≠ 0 := by decide
  cases hw : s.vars.waitingForExit with
  | false =>
    simp only [madeUp_entry hw, hadj, or_false, Bool.false_eq_true, if_false, and_iff_left_iff_imp]
    omega
  | true =>
    rw [madeUp_return hw, if_pos rfl]
    simp only [hadj, false_or]
    constructor
    · rintro ⟨rfl | h3, h | h⟩ <;> first | omega | exact .inl h3 | exact .inr ⟨rfl, h⟩
    · rintro (h3 | ⟨rfl, h⟩)
      · exact ⟨.inr h3, .inl (by omega)⟩
      · exact ⟨.inl rfl, .inr h⟩

/-- The program counter of a trap is at the breakpoint where the trap does not move it. -/
theorem getIp_eq_iff {regs : R} {a : Addr} (h : A.getIp regs - A.pcAdjustAfterTrap = a) :
    A.getIp regs = a ↔ A.pcAdjustAfterTrap = 0 := by
  rw [← h, eq_comm, sub_eq_self]

end MadeUp

/-- What is to be shown of one throw: the guard will restore the memory, and the program counter is
rewound if the registers were read. -/
def Recoverable (A : Arch R) (c : Target) (env : Script R) (m₀ : Mem)
    (s : Session R TraceVars TraceNode) (k : ℕ) (t : Session R TraceVars TraceNode) : Prop :=
  Restores c env m₀ t.tracee.mem t.vars.guardWord ∧
    (1 ≤ k → A.getIp t.tracee.regs = (planted c s.vars).1)

/-- An entry hit whose `k`-th request fails. -/
theorem post_entryHit_fault {r : Round R} {k : ℕ} {s : Session R TraceVars TraceNode}
    (hs : s.tracee.isStopped) (hi : s.issued = 0) (hf : ∀ n q, s.fault n q = decide (n = k))
    (h : ∀ x, env.Keeps x → Holds A c x (m₀ x) s.tracee.mem s.vars)
    (hw : s.vars.waitingForExit = false)
    (hip : A.getIp s.tracee.regs - A.pcAdjustAfterTrap = c.entryVaddr) :
    Post (entryHit A c r s.tracee.regs) s.tick (fun _ _ => True)
      (fun _ t => Recoverable A c env m₀ s k t ↔ MadeUp A c env m₀ s k) := by
  have hans : ∀ n q, s.tick.answersAt n q ↔ n ≠ k := fun n q => by
    simp [Session.answersAt, hs, hf]
  have hplanted : (planted c s.vars).1 = c.entryVaddr := by rw [planted, hw]; rfl
  -- up to the fifth request the guard knows all there is to know about the memory
  have hearly : ∀ n m v, k = n → 1 ≤ n → n ≤ 4 → Restores c env m₀ m v.guardWord →
      (Recoverable A c env m₀ s k (s.tick.put (n + 1) m s.tracee.regs v s.results) ↔
        MadeUp A c env m₀ s k) := by
    rintro n m v rfl h1 h4 hr
    rw [madeUp_entry hw, Recoverable, hplanted]
    simp only [Session.put_tracee, Session.put_vars, hr, true_and, h1, true_implies, h4, true_or,
      and_true, getIp_eq_iff hip, Nat.one_le_iff_ne_zero.1 h1, false_or]
  rw [post_entryHit (k := 1) (by simp [hi])]
  simp only [hans, not_not]
  refine ⟨fun _ => ⟨fun _ => ⟨fun _ => ⟨fun _ => ⟨fun _ => trivial, fun hk => ?_⟩, fun hk => ?_⟩,
    fun hk => ?_⟩, fun hk => ?_⟩, fun hk => ?_⟩
  · subst hk
    rw [madeUp_entry hw, Recoverable, hplanted]
    simp only [Session.put_tracee, Session.put_vars, exitArmedVars, Session.tick_tracee,
      Session.tick_vars, restores_exitArmed h hw, getIp_eq_iff hip]
    simp [and_comm]
  · exact hearly 4 _ _ hk.symm (by omega) (by omega) (restores_entryMem h hw)
  · exact hearly 3 _ _ hk.symm (by omega) (by omega) (restores_entryMem h hw)
  · exact hearly 2 _ _ hk.symm (by omega) (by omega) (restores_entryMem h hw)
  · exact hearly 1 _ _ hk.symm (by omega) (by omega)
      (restores_entry (v := { s.vars with entryTs := r.nowNs }) (fun x hx => (h x hx).entryTs) hw)

/-- A return hit whose `k`-th request fails. -/
theorem post_returnHit_fault {r : Round R} {k : ℕ} {s : Session R TraceVars TraceNode}
    (hs : s.tracee.isStopped) (hi : s.issued = 0) (hf : ∀ n q, s.fault n q = decide (n = k))
    (h : ∀ x, env.Keeps x → Holds A c x (m₀ x) s.tracee.mem s.vars)
    (hw : s.vars.waitingForExit = true)
    (hip : A.getIp s.tracee.regs - A.pcAdjustAfterTrap = s.vars.retVaddr) :
    Post (returnHit A c r s.tracee.regs) s.tick (fun _ _ => True)
      (fun _ t => Recoverable A c env m₀ s k t ↔ MadeUp A c env m₀ s k) := by
  have hans : ∀ n q, s.tick.answersAt n q ↔ n ≠ k := fun n q => by
    simp [Session.answersAt, hs, hf]
  have hplanted : (planted c s.vars).1 = s.vars.retVaddr := by rw [planted, hw]; rfl
  rw [post_returnHit (k := 1) (by simp [hi])]
  simp only [hans, not_not]
  refine ⟨fun _ => ⟨fun _ => ⟨fun _ => ⟨fun _ => trivial, fun hk => ?_⟩, fun hk => ?_⟩,
    fun hk => ?_⟩, fun hk => ?_⟩ <;>
  · subst hk
    rw [madeUp_return hw, Recoverable, hplanted]
    simp [restores_exitMem h hw, restores_ret h hw, getIp_eq_iff hip, and_comm]

/-- **The handling of a stop with its `k`-th request failing**: where it throws, the guard will
restore the memory and the program counter is rewound exactly when `MadeUp`. -/
theorem post_hit_fault {r : Round R} {k : ℕ} {s : Session R TraceVars TraceNode}
    (hs : s.tracee.isStopped) (hi : s.issued = 0) (hf : ∀ n q, s.fault n q = decide (n = k))
    (h : ∀ x, env.Keeps x → Holds A c x (m₀ x) s.tracee.mem s.vars) :
    Post (hit A c r) s (fun _ _ => True)
      (fun _ t => Recoverable A c env m₀ s k t ↔ MadeUp A c env m₀ s k) := by
  have hans : s.answers .getRegs ↔ 0 ≠ k := by simp [Session.answers, hs, hf, hi]
  rw [post_hit]
  simp only [hans, not_not]
  refine ⟨fun _ => ⟨fun hhit => (post_entryHit_fault hs hi hf h hhit.1 hhit.2).mono
      (fun _ _ _ => trivial) fun _ _ h => h, fun _ =>
    ⟨fun hhit => (post_returnHit_fault hs hi hf h hhit.1 hhit.2).mono (fun _ _ _ => trivial)
      fun _ _ h => h, fun _ => trivial⟩⟩, fun hk => ?_⟩
  subst hk
  cases hw : s.vars.waitingForExit with
  | false => simp [madeUp_entry hw, Recoverable, restores_entry h hw]
  | true => simp [madeUp_return hw, Recoverable, restores_ret h hw]

/-- **One failing request in the loop of `trace()`.** In a run whose loop comes to a stop whose
handling throws because its `k`-th request fails, the tracee is left detached, with the memory from
before the attach and, if the registers had been read, at the breakpoint, exactly when the guard
makes up for that failure. On x86_64, where a trap moves the program counter, these are the failures
of `GETREGS` with the entry breakpoint planted, and of the two requests that plant it again; where
a left-over breakpoint hides nothing, that of `GETREGS` during a sampled call too. -/
theorem trace_fault_atomic_iff {impl : Impl} {funcName : Text} {count timeoutMs deadline : ℤ}
    {pre post : List (Round R)} {r : Round R} {k : ℕ} {e : Exception}
    {s₀ s s₁ s₂ s₃ t : Session R TraceVars TraceNode}
    (hprep : (traceCommand A).prepare impl funcName count timeoutMs env s₀ = .ok (c, deadline) s)
    (harm : (traceCommand A).arm c env s = .ok () s₁) (hrounds : env.rounds = pre ++ r :: post)
    (hreach : (traceCommand A).Reaches c deadline pre s₁ s₂)
    (hstop : (traceCommand A).Handles c deadline r s₂ s₃)
    (hfault : ∀ n q, r.hitFault n q = decide (n = k))
    (hthrow : (traceCommand A).hit c r s₃ = .error e t) (hguard : env.guardFault = Fault.none) :
    FaultAtomic A c env s₀.tracee.mem s₃ k
      (finalState (trace A impl funcName count timeoutMs env) s₀) ↔
    MadeUp A c env s₀.tracee.mem s₃ k := by
  have hr : r ∈ env.rounds := by rw [hrounds]; simp
  have hholds : ∀ x, env.Keeps x → Holds A c x (s₀.tracee.mem x) s₃.tracee.mem s₃.vars :=
    fun x hx => by
      rw [hstop.vars]
      exact (holds_of_reaches hprep harm hrounds hreach hx).congr
        (hstop.mem fun b hb => hx.round hr hb)
  have hhandled : s₃.Handled t := post_hit_handled.error hthrow
  have hiff := (post_hit_fault hstop.stopped hstop.issued (by rw [hstop.fault]; exact hfault)
    hholds).error hthrow
  have hloop : (traceCommand A).loop c deadline env.rounds s₁ = .error e t :=
    hrounds ▸ hreach.loop_error hstop hthrow
  have hu := Command.post_run_of_loop_error hprep harm hloop
    ((post_guard (s := t.withFault env.guardFault)
      (hhandled.isStopped.trans hstop.stopped) hguard).mono (fun _ _ h => h) fun _ _ h => h.elim)
  obtain ⟨hmem, hregs, htraced⟩ := hu
  rw [← hiff]
  constructor
  · intro h
    exact ⟨fun x hx => by rw [← h.mem x hx, trace, hmem]; rfl,
      fun hk => by rw [← h.ip hk, trace, hregs]; rfl⟩
  · intro h
    exact ⟨fun x hx => by rw [trace, hmem]; exact h.1 x hx,
      fun hk => by rw [trace, hregs]; exact h.2 hk, htraced⟩

/-- `GETREGS` fails at the first entry hit. -/
theorem trace_fault_atomic_getRegs :
    let r : Round X86Regs := { Round.polling [(0, .change (.trapAt 0x1000))] with
      hitFault := fun n _ => decide (n = 0) }
    let s₀ : Session X86Regs TraceVars TraceNode := .single default
    ∃ c s₃ t, (traceCommand x86_64).hit c r s₃ = .error (.getRegs "PTRACE_GETREGS failed") t ∧
      (FaultAtomic x86_64 c (.sampling [r]) s₀.tracee.mem s₃ 0
        (finalState (trace x86_64 Impl.single "f".toList 1 1 (.sampling [r])) s₀) ↔
      MadeUp x86_64 c (.sampling [r]) s₀.tracee.mem s₃ 0) := by
  intro r s₀
  have hrounds : (Script.sampling [r]).rounds = [] ++ r :: [] := rfl
  exact ⟨_, _, _, rfl, trace_fault_atomic_iff rfl rfl hrounds rfl ⟨⟨_, .head _, rfl⟩, rfl, rfl⟩
    (fun _ _ => rfl) rfl rfl⟩

/-- `SETREGS` fails at the first entry hit: the tracee is let go with the return breakpoint planted
and its program counter past the entry breakpoint. -/
theorem trace_setRegs_fault :
    let r : Round X86Regs := { Round.polling [(0, .change (.trapAt 0x1000))] with
      hitFault := fun n _ => decide (n = 5) }
    let s₀ : Session X86Regs TraceVars TraceNode := .single default
    ∃ t, trace x86_64 Impl.single "f".toList 1 1 (.sampling [r]) s₀ =
        .error (.setRegs "PTRACE_SETREGS failed") t ∧
      (Script.sampling [r]).Keeps 0x2000 ∧ s₀.tracee.mem 0x2000 = 0x90 ∧
      t.tracee.mem 0x2000 = 0xCC ∧ t.tracee.regs.rip = 0x1001 ∧ t.tracee.traced = false := by
  refine ⟨_, rfl, ?_, by decide, by decide, by decide, by decide⟩
  simp [Script.Keeps, Script.behaviours, behaviours, Script.sampling, Round.polling,
    Behaviour.Keeps, Behaviour.stop, Behaviour.trapAt]

end Trace

end Uatu
