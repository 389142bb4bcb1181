import Uatu.Engine.Machine
import Uatu.Engine.StackInvariant
import Uatu.Engine.TraceInvariant

/-!
# Breakpoints that go unnoticed

`trace()` and `stack()` on a tracee that executes code on x86_64. A command that exchanges one
breakpoint for the next at each hit (`Command.Exchanges`) keeps the instrumented tracee the shadow
of an uninstrumented one: between stops by `Machine.observed_shadows`, over a hit because the word
written back is the one the tracee has there. For that the tracee must not write to the words at
the breakpoints, of which `PTRACE_POKEDATA` writes back all eight bytes, the planted one and those
that may be data.
-/

namespace Uatu

open ByteMemory Throwing Trajectory Machine

variable {Ω V ν : Type}

/-- A hit of the breakpoint `p` has exchanged it for `p'`: the tracee is back at the breakpoint,
and the next one is at the entry or, when this one was, at the return address. -/
structure Exchanged (c : Target) (p p' : Addr × Word) (s t : Tracee X86Regs) : Prop where
  regs : t.regs = { s.regs with rip := p.1 }
  mem : t.mem = plant x86_64.makePatchedWord (writeWord s.mem p.1 p.2) p'.1
  word : p'.2 = readWord (writeWord s.mem p.1 p.2) p'.1
  next : p'.1 = c.entryVaddr ∨
    p.1 = c.entryVaddr ∧ p'.1 = readWord (writeWord s.mem p.1 p.2) s.regs.rsp

namespace Command

variable (C : Command X86Regs V ν) (planted : Target → V → Addr × Word)

/-- The command exchanges breakpoints when no request fails; `planted` is the one its local
variables stand for. -/
structure Exchanges : Prop where
  arch : C.arch = x86_64
  start : ∀ c w, planted c (C.start c w) = (c.entryVaddr, w)
  hit : ∀ {c r} {s : Session X86Regs V ν}, s.tracee.isStopped → s.fault = Fault.none →
    s.tracee.regs.rip = (planted c s.vars).1 + 1 →
    Post (C.hit c r) s
      (fun e t => e = none →
        Exchanged c (planted c s.vars) (planted c t.vars) s.tracee t.tracee) fun _ _ => True

/-- Iterations of the loop on a machine in which no request fails and which stops for no `SIGTRAP`
of its own, with what an observer sees of the tracee who takes planted bytes for the originals and
overlooks the traps. -/
inductive Follows (M : Machine Ω) (c : Target) (deadline : ℤ) (s : Session X86Regs V ν) :
    List (Event Ω × State) → Session X86Regs V ν → Prop
  | start : Follows M c deadline s [] s
  | round {log : List (Event Ω × State)} {t u : Session X86Regs V ν} {r : Round X86Regs}
      {ops : List Ω} {cause : Cause} {sig : Signal} (h : Follows M c deadline s log t)
      (hdoes : behaviours r.polls = [M.behaviour ops cause]) (hcause : cause.stopSig ≠ SIGTRAP)
      (hcont : r.contFault = Fault.none) (hhit : r.hitFault = Fault.none)
      (hround : C.round c deadline r t = .ok none u)
      (hsig : (t.resume r).tracee.status = .running sig) :
      Follows M c deadline s (log ++ viewed (planted c t.vars)
        (M.observed ops sig (t.tracee.regs, t.tracee.mem))) u

end Command

/-- Nothing is to be noticed of the breakpoint `p`: the log is a trajectory of the uninstrumented
machine, which leads to where the tracee is, and of the memory only the byte at the breakpoint
differs. -/
structure Unnoticed (M : Machine Ω) (σ₀ : State) (p : Addr × Word) (log : List (Event Ω × State))
    (t : Tracee X86Regs) : Prop where
  shows : Shows M.act σ₀ log
  here : unplant p (t.regs, t.mem) = final M.act σ₀ (log.map Prod.fst)
  one : t.mem = Function.update (unplant p (t.regs, t.mem)).2 p.1 0xCC
  /-- However the iteration that follows ends. -/
  next : ∀ ops sig, Shows M.act σ₀ (log ++ viewed p (M.observed ops sig (t.regs, t.mem)))

variable {M : Machine Ω} {text : Addr → Prop} {σ₀ σ : State} {C : Command X86Regs V ν}
  {planted : Target → V → Addr × Word} {c : Target} {deadline : ℤ}

/-- Over a hit the shadow stays with its machine. -/
theorem Exchanged.shadows {p p' : Addr × Word} {s t : Tracee X86Regs} {τ : State}
    (h : Exchanged c p p' s t) (hτ : M.Shadows c.entryVaddr σ₀ p τ σ) (hip : σ.1.rip = p.1)
    (hregs : s.regs = { τ.1 with rip := p.1 + 1 }) (hmem : s.mem = τ.2) :
    M.Shadows c.entryVaddr σ₀ p' (t.regs, t.mem) σ := by
  have hback : writeWord s.mem p.1 p.2 = σ.2 := by
    rw [hmem, hτ.mem, hτ.word, writeWord_update]
  have hsp : s.regs.rsp = σ.1.rsp := by rw [hregs, hτ.regs]
  refine ⟨?_, ?_, ?_, hτ.reachable, ?_⟩
  · rw [h.regs, hregs, hτ.regs, ← hip]
  · rw [h.mem, hback, plant_x86_64]
  · rw [h.word, hback]
  · obtain hentry | ⟨hentry, hret⟩ := h.next
    · exact hentry ▸ .entry
    · rw [hret, hback, hsp]
      exact .ret hτ.reachable (hip.trans hentry)

namespace Command

/-- How a tracee is reported that has gone on as the machine does. -/
theorem reported_behaviour {s : Session X86Regs V ν} (ops : List Ω) {cause : Cause} {sig : Signal}
    (hcause : cause.stopSig ≠ SIGTRAP) (hsig : s.tracee.status = .running sig) :
    (s.reported (M.behaviour ops cause)).tracee.regs =
        (M.exec ops (M.resumed sig (s.tracee.regs, s.tracee.mem))).1.1 ∧
      (s.reported (M.behaviour ops cause)).tracee.mem =
        (M.exec ops (M.resumed sig (s.tracee.regs, s.tracee.mem))).1.2 ∧
      ∀ cause', waitStatus (s.reported (M.behaviour ops cause)).tracee = .stopped cause' →
        (cause'.stopSig = SIGTRAP ↔
          (M.exec ops (M.resumed sig (s.tracee.regs, s.tracee.mem))).2 = true) := by
  obtain ⟨hmem, hregs⟩ := Tracee.advance_of_running (b := M.behaviour ops cause) hsig
  refine ⟨by simpa [behaviour] using hregs, by simpa [behaviour] using hmem, fun cause' hst => ?_⟩
  have hadv : (s.tracee.advance (M.behaviour ops cause)).status = .stopped cause' := by
    simpa using status_of_waitStatus hst
  obtain ⟨c', hc', rfl⟩ := Tracee.advance_stopped hsig hadv
  rw [Tracee.causeOf_stopSig]
  simp only [behaviour, Option.some.injEq] at hc'
  subst hc'
  split_ifs with htrap
  · exact iff_of_true rfl htrap
  · exact iff_of_false hcause htrap

/-- **One iteration**: the observer sees the uninstrumented machine, and the tracee still shows
it. -/
theorem Exchanges.round (hC : C.Exchanges planted) (hF : M.Fair text c.entryVaddr σ₀)
    (hW : M.SparesWords c.entryVaddr σ₀) {t u : Session X86Regs V ν} {r : Round X86Regs}
    {ops : List Ω} {cause : Cause} {sig : Signal}
    (h : M.Shadows c.entryVaddr σ₀ (planted c t.vars) (t.tracee.regs, t.tracee.mem) σ)
    (hdoes : behaviours r.polls = [M.behaviour ops cause]) (hcause : cause.stopSig ≠ SIGTRAP)
    (hhit : r.hitFault = Fault.none) (hround : C.round c deadline r t = .ok none u)
    (hsig : (t.resume r).tracee.status = .running sig) :
    Shows M.act σ (viewed (planted c t.vars) (M.observed ops sig (t.tracee.regs, t.tracee.mem))) ∧
      M.Shadows c.entryVaddr σ₀ (planted c u.vars) (u.tracee.regs, u.tracee.mem)
        (final M.act σ ((M.observed ops sig (t.tracee.regs, t.tracee.mem)).map Prod.fst)) := by
  obtain ⟨hshows, hends⟩ := observed_shadows hF hW h ops sig
  refine ⟨hshows, ?_⟩
  -- what the tracee does until it is reported
  obtain ⟨hregs, hmem, hiff⟩ := reported_behaviour (M := M) ops hcause hsig
  rw [Session.resume_regs, Session.resume_mem] at hregs hmem hiff
  have hsole : ∀ b ∈ behaviours r.polls, b = M.behaviour ops cause := fun b hb => by
    simpa [hdoes] using hb
  have hvars : ∀ b, ((t.resume r).reported b).vars = t.vars := by simp
  have hpost : Post (C.round c deadline r) t (fun e u => e = none →
      M.Shadows c.entryVaddr σ₀ (planted c u.vars) (u.tracee.regs, u.tracee.mem)
        (final M.act σ ((M.observed ops sig (t.tracee.regs, t.tracee.mem)).map Prod.fst)))
      fun _ _ => True := by
    refine post_round (fun _ h => by cases h) (fun h => by cases h) (fun h => by cases h)
      fun _ => post_await (fun h => by cases h) (fun h => by cases h)
        (fun _ _ _ _ _ h => by cases h) (fun b hb sig' hsig' cause' hst hc' _ => ?_)
        fun b hb sig' hsig' cause' hst hc' => ?_
    · obtain rfl := hsole b hb
      rw [Ends, if_neg fun htrap => hc' ((hiff cause' hst).2 htrap)] at hends
      rw [Session.forward_vars, Session.forward_regs, Session.forward_mem, hvars, hregs, hmem]
      exact hends
    · obtain rfl := hsole b hb
      rw [Ends, if_pos ((hiff cause' hst).1 hc')] at hends
      obtain ⟨hip, τ, hτ, heq⟩ := hends
      refine (hC.hit (s := ((t.resume r).reported (M.behaviour ops cause)).withFault r.hitFault)
        (isStopped_of_waitStatus hst) hhit ?_).mono (fun e u hu he => ?_) fun _ _ _ => trivial
      · rw [Session.withFault_tracee, Session.withFault_vars, hregs, heq, hvars]
      · have hex := hu he
        rw [Session.withFault_vars, hvars] at hex
        refine hex.shadows hτ hip ?_ ?_
        · rw [Session.withFault_tracee, hregs, heq]
        · rw [Session.withFault_tracee, hmem, heq]
  exact hpost.ok hround rfl

/-- **Every number of iterations**: the log is a trajectory of the uninstrumented machine, and the
tracee shows where it has led. -/
theorem Exchanges.follows (hC : C.Exchanges planted) (hF : M.Fair text c.entryVaddr σ₀)
    (hW : M.SparesWords c.entryVaddr σ₀) {s t : Session X86Regs V ν}
    {log : List (Event Ω × State)}
    (hs : M.Shadows c.entryVaddr σ₀ (planted c s.vars) (s.tracee.regs, s.tracee.mem) σ₀)
    (h : C.Follows planted M c deadline s log t) :
    Shows M.act σ₀ log ∧ M.Shadows c.entryVaddr σ₀ (planted c t.vars)
      (t.tracee.regs, t.tracee.mem) (final M.act σ₀ (log.map Prod.fst)) := by
  induction h with
  | start => exact ⟨shows_nil, hs⟩
  | round _ hdoes hcause _ hhit hround hsig ih =>
    obtain ⟨hshows, hhere⟩ := ih
    obtain ⟨hshows', hhere'⟩ := hC.round hF hW hhere hdoes hcause hhit hround hsig
    refine ⟨hshows.append hshows', ?_⟩
    rwa [List.map_append, final_append, map_fst_viewed]

/-- A loop that starts with the entry breakpoint planted goes unnoticed. -/
theorem Exchanges.unnoticed (hC : C.Exchanges planted) {env : Script X86Regs}
    {s s₁ t : Session X86Regs V ν} {log : List (Event Ω × State)}
    (hF : M.Fair text c.entryVaddr (s.tracee.regs, s.tracee.mem))
    (hW : M.SparesWords c.entryVaddr (s.tracee.regs, s.tracee.mem))
    (harm : C.arm c env s = .ok () s₁) (h : C.Follows planted M c deadline s₁ log t) :
    Unnoticed M (s.tracee.regs, s.tracee.mem) (planted c t.vars) log t.tracee := by
  have ha := armed_of_arm harm
  have hs : M.Shadows c.entryVaddr (s.tracee.regs, s.tracee.mem) (planted c s₁.vars)
      (s₁.tracee.regs, s₁.tracee.mem) (s.tracee.regs, s.tracee.mem) := by
    rw [ha.vars, hC.start, ha.tracee]
    exact ⟨rfl, by rw [hC.arch, plant_x86_64], rfl, .refl, .entry⟩
  obtain ⟨hshows, hhere⟩ := hC.follows hF hW hs h
  refine ⟨hshows, hhere.unplant, ?_, fun ops sig => ?_⟩
  · rw [hhere.unplant]
    exact hhere.mem
  · refine hshows.append ?_
    exact (observed_shadows hF hW hhere ops sig).1

end Command

/-! ## The two commands -/

/-- `trace()` exchanges its breakpoints. -/
theorem Trace.exchanges : (traceCommand x86_64).Exchanges Trace.planted where
  arch := rfl
  start _ _ := rfl
  hit {c r s} hs hf hip := by
    have hans : ∀ k q, s.tick.answersAt k q := answersAt_of_none hs hf
    have hhit : x86_64.getIp s.tracee.regs - x86_64.pcAdjustAfterTrap =
        (Trace.planted c s.vars).1 := by
      change s.tracee.regs.rip - 1 = _
      rw [hip, add_sub_cancel_right]
    change Post (Trace.hit x86_64 c r) s _ _
    rw [Trace.post_hit, hhit]
    refine ⟨fun _ => ?_, fun _ => trivial⟩
    cases hw : s.vars.waitingForExit with
    | false =>
      have hp : Trace.planted c s.vars = (c.entryVaddr, s.vars.origEntry) := by
        simp [Trace.planted, hw]
      refine ⟨fun _ => ?_, fun hn => (hn ⟨rfl, by rw [hp]⟩).elim⟩
      rw [Trace.post_entryHit rfl]
      simp only [implies_true, and_true]
      intro _ _ _ _ _ _
      rw [hp]
      exact ⟨rfl, rfl, rfl, .inr ⟨rfl, rfl⟩⟩
    | true =>
      have hp : Trace.planted c s.vars = (s.vars.retVaddr, s.vars.origRet) := by
        simp [Trace.planted, hw]
      refine ⟨fun h => Bool.noConfusion h.1, fun _ => ⟨fun _ => ?_, fun hn =>
        (hn ⟨rfl, by rw [hp]⟩).elim⟩⟩
      rw [Trace.post_returnHit rfl]
      simp only [implies_true, and_true]
      intro _ _ _ _ _
      rw [hp]
      exact ⟨rfl, rfl, rfl, .inl rfl⟩

namespace Stack

/-- The breakpoint of the loop of `stack()`: its address, and the word it is planted over. -/
def breakpoint (c : Target) (v : StackVars) : Addr × Word :=
  if v.waitingForExit then (v.retVaddr, v.origRet) else (c.entryVaddr, v.origEntry)

/-- `stack()` exchanges its breakpoints. -/
theorem exchanges : (stackCommand x86_64).Exchanges breakpoint where
  arch := rfl
  start _ _ := rfl
  hit {c r s} hs hf hip := by
    have hans : ∀ k q, s.tick.answersAt k q := answersAt_of_none hs hf
    have hhit : x86_64.getIp s.tracee.regs - x86_64.pcAdjustAfterTrap =
        (breakpoint c s.vars).1 := by
      change s.tracee.regs.rip - 1 = _
      rw [hip, add_sub_cancel_right]
    change Post (Stack.hit x86_64 c r) s _ _
    rw [post_hit, hhit]
    refine ⟨fun _ => ?_, fun _ => trivial⟩
    cases hw : s.vars.waitingForExit with
    | false =>
      have hp : breakpoint c s.vars = (c.entryVaddr, s.vars.origEntry) := by
        simp [breakpoint, hw]
      refine ⟨fun _ => post_entryHit ?_, fun hn => (hn ⟨rfl, by rw [hp]⟩).elim⟩
      constructor
      case count => intro _ _ _ h; cases h
      case exitArmed =>
        intro _ _ _ _ _ _
        rw [hp]
        exact ⟨rfl, rfl, rfl, .inr ⟨rfl, rfl⟩⟩
      case rearmed => exact fun _ k hn => (hn (hans _ _)).elim
      all_goals intros; trivial
    | true =>
      have hp : breakpoint c s.vars = (s.vars.retVaddr, s.vars.origRet) := by
        simp [breakpoint, hw]
      refine ⟨fun h => Bool.noConfusion h.1, fun _ => ⟨fun _ => ?_, fun hn =>
        (hn ⟨rfl, by rw [hp]⟩).elim⟩⟩
      rw [post_returnHit rfl]
      simp only [implies_true, and_true]
      intro _ _ _ _ _
      rw [hp]
      exact ⟨rfl, rfl, rfl, .inl rfl⟩

end Stack

/-- **Nothing is to be noticed of the breakpoints.** The program must not write to the words at the
breakpoints, not to the text only. -/
theorem sampling_unnoticed {env : Script X86Regs} {σ₀ : State}
    (hF : M.Fair text c.entryVaddr σ₀) (hW : M.SparesWords c.entryVaddr σ₀) :
    (∀ {s s₁ t : Session X86Regs TraceVars TraceNode} {log : List (Event Ω × State)},
      (s.tracee.regs, s.tracee.mem) = σ₀ → (traceCommand x86_64).arm c env s = .ok () s₁ →
      (traceCommand x86_64).Follows Trace.planted M c deadline s₁ log t →
      Unnoticed M σ₀ (Trace.planted c t.vars) log t.tracee) ∧
    ∀ {s s₁ t : Session X86Regs StackVars StackEvent} {log : List (Event Ω × State)},
      (s.tracee.regs, s.tracee.mem) = σ₀ → (stackCommand x86_64).arm c env s = .ok () s₁ →
      (stackCommand x86_64).Follows Stack.breakpoint M c deadline s₁ log t →
      Unnoticed M σ₀ (Stack.breakpoint c t.vars) log t.tracee := by
  constructor
  · rintro s s₁ t log rfl harm h
    exact Trace.exchanges.unnoticed hF hW harm h
  · rintro s s₁ t log rfl harm h
    exact Stack.exchanges.unnoticed hF hW harm h

/-! ## A function called in a loop -/

/-- A function at `0x1000` that stores a byte and returns to its caller at `0x2000`. -/
def Machine.storing (data : Addr) : Machine Unit where
  step _ σ := if σ.1.rip = 0x1000 then ({ σ.1 with rip := 0x2000 }, Function.update σ.2 data 1)
    else ({ σ.1 with rip := 0x1000 }, σ.2)
  deliver _ σ := σ
  fetched σ a := a = σ.1.rip

section Storing

variable {data : Addr} {ω : Unit}

theorem storing_step_function (h : σ.1.rip = 0x1000) : (Machine.storing data).step ω σ =
    ({ σ.1 with rip := 0x2000 }, Function.update σ.2 data 1) :=
  if_pos h

theorem storing_step_caller (h : σ.1.rip ≠ 0x1000) : (Machine.storing data).step ω σ =
    ({ σ.1 with rip := 0x1000 }, σ.2) :=
  if_neg h

/-- What an event can do. -/
theorem storing_cases (data : Addr) (e : Event Unit) (σ : State) :
    (Machine.storing data).act e σ = σ ∨
    (Machine.storing data).act e σ =
      ({ σ.1 with rip := 0x2000 }, Function.update σ.2 data 1) ∨
    (Machine.storing data).act e σ = ({ σ.1 with rip := 0x1000 }, σ.2) := by
  cases e with
  | signal sig => exact .inl rfl
  | op ω =>
    by_cases hip : σ.1.rip = 0x1000
    · exact .inr (.inl (storing_step_function hip))
    · exact .inr (.inr (storing_step_caller hip))

/-- The machine stays at one of its two instructions, which are `nop`s. -/
theorem storing_keeps (hfun : data ≠ 0x1000) (hcall : data ≠ 0x2000)
    (h : Reachable (Machine.storing data).act (X86Regs.single, Mem.single) σ) :
    (σ.1.rip = 0x1000 ∨ σ.1.rip = 0x2000) ∧ σ.2 0x1000 = 0x90 ∧ σ.2 0x2000 = 0x90 := by
  refine h.keeps (I := fun σ => (σ.1.rip = 0x1000 ∨ σ.1.rip = 0x2000) ∧
    σ.2 0x1000 = 0x90 ∧ σ.2 0x2000 = 0x90) ⟨.inr rfl, by decide, by decide⟩ fun e τ hτ => ?_
  rcases storing_cases data e τ with hact | hact | hact <;> rw [hact]
  · exact hτ
  · exact ⟨.inr rfl, (Function.update_of_ne hfun.symm _ _).trans hτ.2.1,
      (Function.update_of_ne hcall.symm _ _).trans hτ.2.2⟩
  · exact ⟨.inl rfl, hτ.2⟩

/-- The word on the stack stays the return address, if the byte is not in it. -/
theorem storing_keeps_stack (hstack : ¬ InWord 0x3000 data)
    (h : Reachable (Machine.storing data).act (X86Regs.single, Mem.single) σ) :
    σ.1.rsp = 0x3000 ∧ readWord σ.2 0x3000 = 0x2000 := by
  refine h.keeps (I := fun σ => σ.1.rsp = 0x3000 ∧ readWord σ.2 0x3000 = 0x2000)
    ⟨rfl, by decide⟩ fun e τ hτ => ?_
  rcases storing_cases data e τ with hact | hact | hact <;> rw [hact]
  · exact hτ
  · refine ⟨hτ.1, ?_⟩
    rw [← hτ.2]
    refine readWord_congr_inWord fun y hy => Function.update_of_ne ?_ _ _
    rintro rfl
    exact hstack hy
  · exact hτ

/-- Then breakpoints are planted at the two instructions only. -/
theorem storing_breakpoint {a : Addr} (hstack : ¬ InWord 0x3000 data)
    (h : (Machine.storing data).Breakpoint 0x1000 (X86Regs.single, Mem.single) a) :
    a = 0x1000 ∨ a = 0x2000 := by
  cases h with
  | entry => exact .inl rfl
  | ret h _ =>
    obtain ⟨hsp, hret⟩ := storing_keeps_stack hstack h
    rw [hsp, hret]
    exact .inr rfl

/-- The words at them are not written to, if the byte is in neither. -/
theorem sparesWords_storing (hfun : ¬ InWord 0x1000 data) (hcall : ¬ InWord 0x2000 data)
    (hstack : ¬ InWord 0x3000 data) :
    (Machine.storing data).SparesWords 0x1000 (X86Regs.single, Mem.single) := by
  intro σ _ e a ha x hx
  have hne : x ≠ data := by
    rintro rfl
    rcases storing_breakpoint hstack ha with rfl | rfl
    · exact hfun hx
    · exact hcall hx
  rcases storing_cases data e σ with hact | hact | hact <;> rw [hact]
  exact Function.update_of_ne hne _ _

/-- It is fair when the byte is not in the text, and not in the return address. -/
theorem fair_storing (hdata : ¬ text data) (hfun : text 0x1000) (hcall : text 0x2000)
    (hstack : ¬ InWord 0x3000 data) :
    (Machine.storing data).Fair text 0x1000 (X86Regs.single, Mem.single) where
  step {σ} _ ω := by
    obtain ⟨regs, mem⟩ := σ
    by_cases hip : regs.rip = 0x1000
    · have hstep : ∀ m, (storing data).step ω (regs, m) =
          ({ regs with rip := 0x2000 }, Function.update m data 1) :=
        fun m => storing_step_function hip
      refine ⟨fun m _ => ?_, fun m hm x hx => ?_, fun m _ x hx => ?_⟩
      · simp only [hstep]
      · simp only [hstep, Function.update_apply, hm x fun h => (hx h).elim]
      · simp only [hstep]
        refine Function.update_of_ne ?_ _ _
        rintro rfl
        exact hdata hx
    · have hstep : ∀ m, (storing data).step ω (regs, m) = ({ regs with rip := 0x1000 }, m) :=
        fun m => storing_step_caller hip
      refine ⟨fun m _ => ?_, fun m hm x hx => ?_, fun m _ x hx => ?_⟩
      · simp only [hstep]
      · simp only [hstep]
        exact hm x fun h => (hx h).elim
      · simp only [hstep]
  deliver _ _ := ⟨fun _ _ => rfl, fun m hm x hx => hm x fun h => (hx h).elim, fun _ _ _ _ => rfl⟩
  trap {σ} h := by
    have hne : data ≠ 0x1000 ∧ data ≠ 0x2000 :=
      ⟨fun h => hdata (h ▸ hfun), fun h => hdata (h ▸ hcall)⟩
    obtain ⟨hip, hf, hc⟩ := storing_keeps hne.1 hne.2 h
    obtain hip | hip := hip
    · rw [State.AtTrap, hip, hf]
      decide
    · rw [State.AtTrap, hip, hc]
      decide
  planted ha := by
    rcases storing_breakpoint hstack ha with rfl | rfl
    · exact hfun
    · exact hcall
  start _ _ _ h := h.symm

end Storing

/-- The constants of the loop for this function. -/
def Target.storing : Target := ⟨"f".toList, 2, ⟨[]⟩, 0, 0x1000⟩

/-- An iteration in which the tracee has time for two instructions. -/
def Round.storing (data : Addr) : Round X86Regs :=
  .polling [(0, .change ((Machine.storing data).behaviour [(), ()] .attach))]

/-- The tracee when the loop is entered, stopped at the caller. -/
def Session.storing : Session X86Regs TraceVars TraceNode :=
  { Session.single default with
    tracee := ⟨Mem.single, X86Regs.single, .stopped .attach, true, false, [], []⟩ }

namespace Storing

/-- The session when the loop is entered. -/
def armed : Session X86Regs TraceVars TraceNode :=
  finalState ((traceCommand x86_64).arm .storing (.sampling [])) .storing

/-- The session after a call of the function. -/
def called (data : Addr) : Session X86Regs TraceVars TraceNode :=
  finalState ((traceCommand x86_64).round .storing 1000000 (.storing data)) armed

/-- The session after its return. -/
def returned (data : Addr) : Session X86Regs TraceVars TraceNode :=
  finalState ((traceCommand x86_64).round .storing 1000000 (.storing data)) (called data)

theorem arm_storing :
    (traceCommand x86_64).arm .storing (.sampling []) .storing = .ok () armed := by rfl

/-- An iteration of the loop, in which no signal is delivered. -/
theorem iteration {data : Addr} {s t u : Session X86Regs TraceVars TraceNode}
    {log : List (Event Unit × State)}
    (hround : (traceCommand x86_64).round .storing 1000000 (.storing data) t = .ok none u)
    (hsig : (t.resume (.storing data)).tracee.status = .running 0)
    (h : (traceCommand x86_64).Follows Trace.planted (Machine.storing data) .storing 1000000 s
      log t) :
    (traceCommand x86_64).Follows Trace.planted (Machine.storing data) .storing 1000000 s
      (log ++ viewed (Trace.planted .storing t.vars)
        ((Machine.storing data).observed [(), ()] 0 (t.tracee.regs, t.tracee.mem))) u :=
  .round h rfl (show Cause.attach.stopSig ≠ SIGTRAP by decide) rfl rfl hround hsig

end Storing

theorem sampling_unnoticed_storing : ∃ log, log.length = 2 ∧
    Unnoticed (Machine.storing 0x2008) (X86Regs.single, Mem.single)
      (Trace.planted .storing (Storing.returned 0x2008).vars) log
      (Storing.returned 0x2008).tracee :=
  ⟨_, rfl, (sampling_unnoticed
    (@fair_storing (fun x => x = 0x1000 ∨ x = 0x2000) 0x2008 (by decide) (.inl rfl) (.inr rfl)
      (by decide))
    (sparesWords_storing (by decide) (by decide) (by decide))).1 rfl Storing.arm_storing
    (Storing.iteration (t := Storing.called 0x2008) rfl rfl
      (Storing.iteration (t := Storing.armed) rfl rfl .start))⟩

/-- When the word at the return address reaches into data, the return hit undoes a store of the
function. -/
theorem trace_undoes_store : ∃ log,
    (Machine.storing 0x2004).Fair (fun x => x = 0x1000 ∨ x = 0x2000) 0x1000
      (X86Regs.single, Mem.single) ∧
    (traceCommand x86_64).Follows Trace.planted (Machine.storing 0x2004) .storing 1000000
      Storing.armed log (Storing.returned 0x2004) ∧
    ¬ Unnoticed (Machine.storing 0x2004) (X86Regs.single, Mem.single)
      (Trace.planted .storing (Storing.returned 0x2004).vars) log
      (Storing.returned 0x2004).tracee := by
  refine ⟨_, fair_storing (by decide) (.inl rfl) (.inr rfl) (by decide),
    Storing.iteration (t := Storing.called 0x2004) rfl rfl
      (Storing.iteration (t := Storing.armed) rfl rfl .start), fun h => ?_⟩
  have hbyte := congrArg (fun σ : State => σ.2 0x2004) h.here
  revert hbyte
  decide

end Uatu
