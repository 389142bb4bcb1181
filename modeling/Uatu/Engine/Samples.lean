import Uatu.Engine.Invocations

/-!
# How many samples `trace()` returns

At most `count`, and on a tracee that calls the function often enough in time exactly `count`
(`exists_trace_count`), whatever the function and the architecture.
-/

namespace Uatu

open ByteMemory Throwing

variable {R : Type}

/-- The clock is read for the deadline first, and it does not go backwards. -/
def Script.Timed (env : Script R) : Prop := ∀ r ∈ env.rounds, env.start ≤ r.now

namespace Trace

variable {A : Arch R} {impl : Impl} {funcName : Text} {count timeoutMs deadline : ℤ} {c : Target}
  {env : Script R} {r : Round R} {s t : Session R TraceVars TraceNode}

/-! ## At most `count` -/

/-- A stop adds at most one sample. -/
theorem post_hit_length :
    Post (hit A c r) s (fun _ t => t.results.length ≤ s.results.length + 1) fun _ _ => True := by
  rw [post_hit]
  refine ⟨fun _ => ⟨fun _ => ?_, fun _ => ⟨fun _ => ?_, fun _ => Nat.le_succ _⟩⟩, fun _ => trivial⟩
  · rw [post_entryHit rfl]
    simp
  · rw [post_returnHit rfl]
    simp

/-- An iteration that starts with less than `count` samples ends with at most `count`. -/
theorem post_round_length (hs : (s.results.length : ℤ) ≤ c.count) :
    Post ((traceCommand A).round c deadline r) s (fun _ t => (t.results.length : ℤ) ≤ c.count)
      fun _ _ => True := by
  refine Command.post_round (fun _ => hs) hs hs fun hlt => ?_
  have hres : ((s.resume r).results.length : ℤ) ≤ c.count := by simpa using hs
  refine Command.post_await hres hres (fun b _ _ _ _ => ?_) (fun b _ _ _ _ _ _ => ?_)
    fun b _ _ _ _ _ _ => ?_
  · simpa using hs
  · simpa using hs
  · refine post_hit_length.mono (fun _ t ht => ?_) fun _ _ h => h
    simp only [Session.withFault_results, Session.reported_results, Session.resume_results] at ht
    omega

theorem post_loop_length {rounds : List (Round R)} (hs : (s.results.length : ℤ) ≤ c.count) :
    Post ((traceCommand A).loop c deadline rounds) s
      (fun _ t => (t.results.length : ℤ) ≤ c.count) fun _ _ => True :=
  Command.post_loop (I := fun s => (s.results.length : ℤ) ≤ c.count) (fun _ hs _ => hs)
    (fun _ hs => hs)
    (fun r _ s hs => (post_round_length hs).mono (fun e t ht => by cases e <;> exact ht)
      fun _ _ h => h) hs

/-- **`trace()` returns at most `count` samples.** -/
theorem length_le_count {nodes : List TraceNode}
    (h : trace A impl funcName count timeoutMs env s = .ok nodes t) :
    (nodes.length : ℤ) ≤ count := by
  obtain ⟨c, deadline, s₁, s₂, e, s₃, hprep, harm, hloop, hfinish⟩ := Command.run_eq_ok h
  obtain ⟨hcount, hnonneg⟩ : c.count = count ∧ 0 ≤ count := Command.count_of_prepare.ok hprep
  have hstart : s₂.results = [] :=
    (Command.armed_of_arm harm).results.trans (Command.prepared_of_prepare hprep).results
  have hlength : (s₃.results.length : ℤ) ≤ c.count :=
    (post_loop_length (by rw [hstart, hcount]; exact hnonneg)).ok hloop
  rwa [post_finish_results.ok hfinish, ← hcount]

/-! ## None after the deadline -/

/-- An iteration that starts after the deadline leaves the loop as it is. -/
theorem post_round_late (hlate : deadline ≤ r.now) :
    Post ((traceCommand A).round c deadline r) s (fun e t => e ≠ none ∧ t = s)
      fun _ _ => False := by
  have hsome : ∀ x : LoopExit, some x ≠ none := fun x => Option.some_ne_none x
  simp only [Command.round, post_bind, post_get, post_ite, post_pure]
  exact ⟨fun _ => ⟨hsome _, trivial⟩, fun _ => ⟨fun _ => ⟨hsome _, trivial⟩,
    fun _ => ⟨fun _ => ⟨hsome _, trivial⟩, fun h => absurd hlate h⟩⟩⟩

theorem post_loop_late {rounds : List (Round R)} (hlate : ∀ r ∈ rounds, deadline ≤ r.now) :
    Post ((traceCommand A).loop c deadline rounds) s (fun _ t => t = s) fun _ _ => False := by
  cases rounds with
  | nil =>
    simp only [Command.loop, post_bind, post_get, post_ite, post_pure]
    exact ⟨fun _ => trivial, fun _ => trivial⟩
  | cons r rounds =>
    rw [Command.loop, post_bind]
    refine (post_round_late (hlate r (List.mem_cons_self ..))).mono (fun e t ht => ?_)
      fun _ _ h => h
    cases e with
    | none => exact absurd rfl ht.1
    | some e => exact ht.2

/-- **Without time there are no samples.** -/
theorem eq_nil_of_timeout {nodes : List TraceNode} (htimed : env.Timed) (htimeout : timeoutMs ≤ 0)
    (h : trace A impl funcName count timeoutMs env s = .ok nodes t) : nodes = [] := by
  obtain ⟨c, deadline, s₁, s₂, e, s₃, hprep, harm, hloop, hfinish⟩ := Command.run_eq_ok h
  have hdeadline : deadline = env.start + timeoutMs * 1000000 :=
    Command.deadline_of_prepare.ok hprep
  have hlate : ∀ r ∈ env.rounds, deadline ≤ r.now := fun r hr => by
    have := htimed r hr
    omega
  obtain rfl : s₃ = s₂ := (post_loop_late hlate).ok hloop
  rw [post_finish_results.ok hfinish, (Command.armed_of_arm harm).results,
    (Command.prepared_of_prepare hprep).results]

/-! ## Exactly `count` -/

/-- Run to an address and trap there. -/
def trapAt (A : Arch R) (addr : Addr) : Behaviour R :=
  fun _ m regs => ⟨m, A.setIp regs (addr + A.pcAdjustAfterTrap), some (.signal SIGTRAP)⟩

/-- The loop between two samples: the tracee is stopped, and no call is being sampled. -/
structure Idle (s : Session R TraceVars TraceNode) : Prop where
  stopped : s.tracee.isStopped
  needCont : s.needCont = true
  waiting : s.vars.waitingForExit = false

/-- An iteration within the first nanosecond, in which the tracee runs to an address. -/
def runTo (A : Arch R) (addr : Addr) : Round R := .polling [(0, .change (trapAt A addr))]

/-- A running tracee traps at this address. -/
theorem advance_trapAt (A : Arch R) (addr : Addr) {tr : Tracee R} {sig : Signal}
    (h : tr.status = .running sig) :
    (tr.advance (trapAt A addr)).status = .stopped (.signal SIGTRAP) ∧
      A.getIp (tr.advance (trapAt A addr)).regs - A.pcAdjustAfterTrap = addr := by
  simp only [Tracee.advance, h, trapAt, Tracee.causeOf, Arch.getIp_setIp, true_and]
  exact add_sub_cancel_right addr A.pcAdjustAfterTrap

/-- A stopped tracee runs when it is resumed. -/
theorem resume_running (A : Arch R) (addr : Addr) (hs : s.tracee.isStopped)
    (hcont : s.needCont = true) :
    ∃ sig, (s.resume (runTo A addr)).tracee.status = .running sig := by
  have hstopped : (s.withFault (runTo A addr).contFault).tracee.isStopped := hs
  have hanswers := answers_of_none hstopped rfl .cont
  rw [Session.resume_tracee, if_pos ⟨hcont, hanswers⟩]
  unfold Tracee.isStopped at hs
  unfold Tracee.cont
  split at hs
  next cause hstatus => exact ⟨_, rfl⟩
  · cases hs

/-- It comes to the handling of a stop, with the tracee at this address. -/
theorem handles_runTo (A : Arch R) (addr : Addr) (hs : s.tracee.isStopped)
    (hcont : s.needCont = true) (hcount : (s.results.length : ℤ) < c.count)
    (htimeout : 0 < timeoutMs) :
    ∃ t : Session R TraceVars TraceNode,
      (traceCommand A).Handles c (timeoutMs * 1000000) (runTo A addr) s t ∧
      t.results = s.results ∧ t.needCont = true ∧
      A.getIp t.tracee.regs - A.pcAdjustAfterTrap = addr := by
  obtain ⟨sig, hsig⟩ := resume_running A addr hs hcont
  obtain ⟨hstatus, hip⟩ := advance_trapAt A addr hsig
  have hdiv : (timeoutMs * 1000000 - 0).tdiv 1000000 = timeoutMs := by
    rw [sub_zero]
    exact Int.mul_tdiv_cancel _ (by decide)
  have hwait : (0 : ℤ) < 0 + (timeoutMs * 1000000 - 0).tdiv 1000000 * 1000000 := by
    rw [hdiv]
    omega
  have hcause : waitStatus ((s.resume (runTo A addr)).reported (trapAt A addr)).tracee =
      .stopped (.signal SIGTRAP) := by
    simp [waitStatus, hstatus]
  have htime : (0 : ℤ) < timeoutMs * 1000000 := by omega
  exact ⟨_, Command.handles_of_stopped hcount rfl htime htime rfl hwait hsig hcause rfl, by simp,
    rfl, by simpa using hip⟩

/-- The entry hit of a stopped tracee, when no request fails. -/
theorem post_hit_entry (hs : t.tracee.isStopped) (hf : t.fault = Fault.none)
    (hw : t.vars.waitingForExit = false)
    (hip : A.getIp t.tracee.regs - A.pcAdjustAfterTrap = c.entryVaddr) :
    Post (hit A c r) t (fun e u => e = none ∧ u.tracee.isStopped ∧ u.needCont = t.needCont ∧
      u.vars.waitingForExit = true ∧ u.results = t.results) fun _ _ => False := by
  rw [post_hit]
  refine ⟨fun _ => ⟨fun _ => ?_, fun h => absurd ⟨hw, hip⟩ h⟩,
    fun h => absurd (answers_of_none hs hf _) h⟩
  have hanswers : ∀ k q, t.tick.answersAt k q := fun k q => answersAt_of_none hs hf k q
  rw [post_entryHit rfl]
  simp only [hanswers, forall_const, not_true_eq_false, false_implies, and_true]
  exact ⟨trivial, hs, rfl, rfl, rfl⟩

/-- The return hit of a stopped tracee, when no request fails. -/
theorem post_hit_return (hs : t.tracee.isStopped) (hf : t.fault = Fault.none)
    (hw : t.vars.waitingForExit = true)
    (hip : A.getIp t.tracee.regs - A.pcAdjustAfterTrap = t.vars.retVaddr) :
    Post (hit A c r) t (fun e u => e = none ∧ u.tracee.isStopped ∧ u.needCont = t.needCont ∧
      u.vars.waitingForExit = false ∧ u.results.length = t.results.length + 1)
      fun _ _ => False := by
  rw [post_hit]
  refine ⟨fun _ => ⟨fun h => absurd (hw.symm.trans h.1) (by decide),
    fun _ => ⟨fun _ => ?_, fun h => absurd ⟨hw, hip⟩ h⟩⟩,
    fun h => absurd (answers_of_none hs hf _) h⟩
  have hanswers : ∀ k q, t.tick.answersAt k q := fun k q => answersAt_of_none hs hf k q
  rw [post_returnHit rfl]
  simp only [hanswers, forall_const, not_true_eq_false, false_implies, and_true]
  exact ⟨trivial, hs, rfl, rfl, by simp⟩

/-- **A call that is sampled**: the tracee runs to the entry of the function and then to where it
returns. -/
theorem exists_sample (A : Arch R) (hs : Idle s) (hcount : (s.results.length : ℤ) < c.count)
    (htimeout : 0 < timeoutMs) :
    ∃ addr t u, (traceCommand A).round c (timeoutMs * 1000000) (runTo A c.entryVaddr) s =
        .ok none t ∧
      (traceCommand A).round c (timeoutMs * 1000000) (runTo A addr) t = .ok none u ∧
      Idle u ∧ u.results.length = s.results.length + 1 := by
  obtain ⟨t₀, hhandles, hres, hcont, hip⟩ :=
    handles_runTo A c.entryVaddr hs.stopped hs.needCont hcount htimeout
  have hentry := post_hit_entry (c := c) (r := runTo A c.entryVaddr) hhandles.stopped hhandles.fault
    (hhandles.vars ▸ hs.waiting) hip
  obtain ⟨e, t, hround, rfl, hstopped, hcont', hwaiting, hres'⟩ := hentry.exists_ok
  have hcount' : (t.results.length : ℤ) < c.count := by rwa [hres', hres]
  obtain ⟨u₀, hhandles', hresu, hcontu, hipu⟩ :=
    handles_runTo A t.vars.retVaddr hstopped (hcont'.trans hcont) hcount' htimeout
  have hreturn := post_hit_return (c := c) (r := runTo A t.vars.retVaddr) hhandles'.stopped
    hhandles'.fault (hhandles'.vars ▸ hwaiting) (hhandles'.vars ▸ hipu)
  obtain ⟨e, u, hround', rfl, hstopped', hcontu', hwaiting', hresu'⟩ := hreturn.exists_ok
  refine ⟨t.vars.retVaddr, t, u, hhandles.round.trans hround, hhandles'.round.trans hround',
    ⟨hstopped', hcontu'.trans hcontu, hwaiting'⟩, ?_⟩
  rw [hresu', hresu, hres', hres]

/-- Within the time of a command, its loop can be given any number of samples. -/
theorem exists_rounds (A : Arch R) (htimeout : 0 < timeoutMs) (n : ℕ) (hs : Idle s)
    (hcount : (s.results.length : ℤ) + n = c.count) :
    ∃ rounds t, (∀ r ∈ rounds, r.now = 0) ∧
      (traceCommand A).loop c (timeoutMs * 1000000) rounds s = .ok .count t ∧ Idle t ∧
      (t.results.length : ℤ) = c.count := by
  induction n generalizing s with
  | zero =>
    have hdone : (s.results.length : ℤ) = c.count := by omega
    refine ⟨[], s, by simp, ?_, hs, hdone⟩
    have hget : (get : Engine R TraceVars TraceNode _) s = .ok s s := rfl
    rw [Command.loop, bind_ok hget, if_pos (by omega)]
    rfl
  | succ n ih =>
    obtain ⟨addr, t, u, hentry, hreturn, hidle, hres⟩ :=
      exists_sample (c := c) A hs (by omega) htimeout
    obtain ⟨rounds, v, hnow, hloop, hidle', hcount'⟩ := ih hidle (by omega)
    refine ⟨runTo A c.entryVaddr :: runTo A addr :: rounds, v, ?_, ?_, hidle', hcount'⟩
    · simpa [runTo, Round.polling] using hnow
    · rw [Command.loop, bind_ok hentry]
      change (traceCommand A).loop c _ (runTo A addr :: rounds) t = _
      rw [Command.loop, bind_ok hreturn]
      exact hloop

variable (A timeoutMs) in
/-- A running process whose function is known is attached to. -/
theorem post_prepare_sampling (rounds : List (Round R)) {finder : SymbolFinder} {info : FuncInfo}
    {sig : Signal} (hfinder : impl.finder = .ok finder) (hfind : finder.find funcName = some info)
    (haddr : info.address ≠ 0) (hcount : 0 ≤ count) (hs : s.tracee.status = .running sig) :
    Post ((traceCommand A).prepare impl funcName count timeoutMs (.sampling rounds)) s
      (fun p t => p.1.count = count ∧ p.2 = timeoutMs * 1000000 ∧ t.tracee.isStopped ∧
        t.results = []) fun _ _ => False := by
  let s₁ := (s.withFault Fault.none).mapTracee Tracee.attach
  let b : Behaviour R := .stop .attach
  have hwait : waitpidTimeout 5000 0 [(0, .change b)] s₁ =
      .ok (some (waitStatus (s₁.tracee.advance b).report))
        (s₁.mapTracee fun t => (t.advance b).report) :=
    waitpidTimeout_change (by decide) hs
  have hstopped : (s₁.tracee.advance b).report.isStopped := by
    rw [Tracee.report_isStopped]
    simp [s₁, b, Tracee.isStopped, Tracee.advance, hs, Behaviour.stop]
  simp only [Command.prepare, hfinder, hfind, haddr, if_false, Script.sampling, post_bind,
    post_modify]
  refine post_of_ok hwait ?_
  simp only [post_bind, post_modify, post_ite, post_throw, post_pure]
  exact ⟨fun hneg => absurd hcount (not_le.2 hneg), fun _ => ⟨trivial, by simp, hstopped, trivial⟩⟩

/-- The cleanup of a stopped tracee, when no request fails, leaves it running. -/
theorem post_cleanup_idle (hs : Idle s) (hf : s.fault = Fault.none) :
    Post (cleanup c) s (fun _ t => t.tracee.status = .running 0 ∧ t.results = s.results)
      fun _ _ => False := by
  have hstopped : s.tracee.isStopped := hs.stopped
  have hanswers : ∀ k q, s.answersAt k q := fun k q => answersAt_of_none hstopped hf k q
  suffices h : Post (cleanup c) (s.put s.issued s.tracee.mem s.tracee.regs s.vars s.results)
      (fun _ t => t.tracee.status = .running 0 ∧ t.results = s.results) fun _ _ => False from h
  simp [cleanup, hs.waiting, hanswers, Tracee.detach]

/-- **A process can be sampled `count` times**: there is a run of `trace()` in time that returns
`count` samples and leaves the process running. -/
theorem exists_trace_count {finder : SymbolFinder} {info : FuncInfo} {sig : Signal}
    (hfinder : impl.finder = .ok finder) (hfind : finder.find funcName = some info)
    (haddr : info.address ≠ 0) (hcount : 0 ≤ count) (htimeout : 0 < timeoutMs)
    (hs : s.tracee.status = .running sig) :
    ∃ rounds nodes t, (∀ r ∈ rounds, r.now = 0) ∧
      trace A impl funcName count timeoutMs (.sampling rounds) s = .ok nodes t ∧
      (nodes.length : ℤ) = count ∧ t.tracee.status = .running 0 := by
  -- the rounds come into play in the loop only
  obtain ⟨⟨c, deadline⟩, s₁, hprep, hc, rfl, hstopped, hres⟩ :=
    (post_prepare_sampling A timeoutMs [] hfinder hfind haddr hcount hs).exists_ok
  have hnofail : ∀ k q, (s₁.withFault Fault.none).answersAt k q := fun k q =>
    answersAt_of_none (s := s₁.withFault Fault.none) hstopped rfl k q
  have harms : Post ((traceCommand A).arm c (.sampling [])) s₁
      (fun _ t => Command.Armed (traceCommand A) c s₁ t) fun _ _ => False :=
    Command.post_arm (fun _ ht => ht) fun _ _ k q hfails _ => hfails (hnofail k q)
  obtain ⟨⟨⟩, s₂, harm, harmed⟩ := harms.exists_ok
  have hidle : Idle s₂ :=
    ⟨by rw [harmed.tracee]; exact harmed.stopped, harmed.needCont, by rw [harmed.vars]; rfl⟩
  have hstart : (s₂.results.length : ℤ) + count.toNat = c.count := by
    rw [harmed.results, hres, show c.count = count from hc, Int.toNat_of_nonneg hcount]
    exact zero_add count
  obtain ⟨rounds, t, hnow, hloop, hidle', hlength⟩ :=
    exists_rounds A htimeout count.toNat hidle hstart
  have hrun : trace A impl funcName count timeoutMs (.sampling rounds) s =
      (traceCommand A).finish c (.sampling rounds) t :=
    Command.run_of_loop_ok hprep harm hloop
  have hlate : Idle ((t.mapTracee (Command.late (.sampling rounds))).withFault Fault.none) :=
    ⟨hidle'.stopped, hidle'.needCont, hidle'.waiting⟩
  have hfinish : Post ((traceCommand A).finish c (.sampling rounds)) t
      (fun nodes u => u.tracee.status = .running 0 ∧ nodes = t.results) fun _ _ => False := by
    simp only [Command.finish, post_bind, post_modify, post_get, post_pure]
    exact post_cleanup_idle hlate rfl
  obtain ⟨nodes, u, hok, hrunning, rfl⟩ := hfinish.exists_ok
  exact ⟨rounds, _, u, hnow, hrun.trans hok, hlength.trans hc, hrunning⟩

end Trace

end Uatu
