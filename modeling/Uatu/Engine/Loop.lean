import Uatu.Engine.Sampling

/-!
# The sampling loop

The rules of one iteration of a sampling loop and of its run. An iteration is the same for both
commands but for the handling of a `SIGTRAP` stop, so what the tracee and the signals do is argued
here, once: `post_round` and `post_await` list what an iteration can come to, `post_loop` turns
what an iteration preserves into what the loop does, and `post_loop_keeps` does so for a bookkeeping
of bytes that the tracee never writes.
-/

namespace Uatu

open ByteMemory Throwing

variable {R V ν : Type}

/-! ## One iteration of the loop -/

namespace Session

/-- The session after a `PTRACE_CONT`, whether it succeeded or not. -/
def contWith (sig : Signal) (s : Session R V ν) : Session R V ν :=
  if s.answers .cont then s.tick.mapTracee (Tracee.cont sig) else s.tick

/-- The session when the loop starts to wait. -/
def resume (r : Round R) (s : Session R V ν) : Session R V ν :=
  { (if s.needCont then (s.withFault r.contFault).contWith 0 else s.withFault r.contFault) with
    needCont := true }

/-- The session after the wait, when the tracee did `b` and was reported. -/
def reported (b : Behaviour R) (s : Session R V ν) : Session R V ν :=
  s.mapTracee fun t => (t.advance b).report

/-- The session after a signal is passed on. -/
def forward (sig : Signal) (s : Session R V ν) : Session R V ν :=
  { s.contWith sig with needCont := false }

variable (s : Session R V ν)

@[simp] theorem contWith_vars (sig : Signal) : (s.contWith sig).vars = s.vars := by
  unfold contWith; split_ifs <;> rfl

@[simp] theorem contWith_results (sig : Signal) : (s.contWith sig).results = s.results := by
  unfold contWith; split_ifs <;> rfl

@[simp] theorem contWith_needCont (sig : Signal) : (s.contWith sig).needCont = s.needCont := by
  unfold contWith; split_ifs <;> rfl

theorem contWith_tracee (sig : Signal) : (s.contWith sig).tracee =
    if s.answers .cont then s.tracee.cont sig else s.tracee := by
  unfold contWith; split_ifs <;> rfl

@[simp] theorem resume_vars (r : Round R) : (s.resume r).vars = s.vars := by
  unfold resume; split_ifs <;> simp

@[simp] theorem resume_results (r : Round R) : (s.resume r).results = s.results := by
  unfold resume; split_ifs <;> simp

theorem resume_fault (r : Round R) : (s.resume r).fault = r.contFault := by
  unfold resume contWith
  split_ifs <;> rfl

@[simp] theorem reported_vars (b : Behaviour R) : (s.reported b).vars = s.vars := rfl

@[simp] theorem reported_results (b : Behaviour R) : (s.reported b).results = s.results := rfl

@[simp] theorem reported_tracee (b : Behaviour R) :
    (s.reported b).tracee = (s.tracee.advance b).report := rfl

@[simp] theorem forward_vars (sig : Signal) : (s.forward sig).vars = s.vars :=
  contWith_vars s sig

@[simp] theorem forward_results (sig : Signal) : (s.forward sig).results = s.results :=
  contWith_results s sig

theorem forward_tracee (sig : Signal) : (s.forward sig).tracee =
    if s.answers .cont then s.tracee.cont sig else s.tracee :=
  contWith_tracee s sig

@[simp] theorem forward_mem (sig : Signal) : (s.forward sig).tracee.mem = s.tracee.mem := by
  rw [forward_tracee]; split_ifs <;> simp

@[simp] theorem forward_traced (sig : Signal) :
    (s.forward sig).tracee.traced = s.tracee.traced := by
  rw [forward_tracee]; split_ifs <;> simp

theorem resume_tracee (r : Round R) : (s.resume r).tracee =
    if s.needCont ∧ (s.withFault r.contFault).answers .cont then s.tracee.cont 0
    else s.tracee := by
  unfold resume
  by_cases h : s.needCont
  · simp only [h, if_true, contWith_tracee, withFault_tracee, true_and]
  · simp [h]

@[simp] theorem resume_mem (r : Round R) : (s.resume r).tracee.mem = s.tracee.mem := by
  rw [resume_tracee]; split_ifs <;> simp

@[simp] theorem resume_regs (r : Round R) : (s.resume r).tracee.regs = s.tracee.regs := by
  rw [resume_tracee]; split_ifs <;> simp

@[simp] theorem forward_regs (sig : Signal) : (s.forward sig).tracee.regs = s.tracee.regs := by
  rw [forward_tracee]; split_ifs <;> simp

@[simp] theorem resume_traced (r : Round R) : (s.resume r).tracee.traced = s.tracee.traced := by
  rw [resume_tracee]; split_ifs <;> simp

theorem reported_mem {b : Behaviour R} {x : Addr} (hb : b.Keeps x) :
    (s.reported b).tracee.mem x = s.tracee.mem x := by
  rw [reported_tracee, Tracee.report_mem, Tracee.advance_mem _ hb]

@[simp] theorem reported_traced (b : Behaviour R) :
    (s.reported b).tracee.traced = s.tracee.traced := by
  rw [reported_tracee, Tracee.report_traced, Tracee.advance_traced]

end Session

theorem post_contWith {sig : Signal} {s : Session R V ν} {Q : Unit → Session R V ν → Prop}
    {E : Exception → Session R V ν → Prop} :
    Post (ptraceCont sig) s Q E ↔ Q () (s.contWith sig) := by
  rw [post_ptraceCont, Session.contWith]
  split_ifs with h <;> simp [h]

namespace Command

variable {C : Command R V ν} {c : Target} {deadline : ℤ}

/-- The wait: it fails, or the tracee has exited, or a signal is passed on, or a `SIGTRAP` stop is
handled. -/
theorem post_await {r : Round R} {s : Session R V ν}
    {Q : Option LoopExit → Session R V ν → Prop} {E : Exception → Session R V ν → Prop}
    (hafter : Q (some .deadlineAfterCont) s) (hwait : Q (some .waitFailed) s)
    (hexited : ∀ b ∈ behaviours r.polls, ∀ sig, s.tracee.status = .running sig →
      waitStatus (s.reported b).tracee = .exited → Q (some .notStopped) (s.reported b))
    (hsignal : ∀ b ∈ behaviours r.polls, ∀ sig, s.tracee.status = .running sig →
      ∀ cause, waitStatus (s.reported b).tracee = .stopped cause → cause.stopSig ≠ SIGTRAP →
      Q none ((s.reported b).forward cause.stopSig))
    (htrap : ∀ b ∈ behaviours r.polls, ∀ sig, s.tracee.status = .running sig →
      ∀ cause, waitStatus (s.reported b).tracee = .stopped cause → cause.stopSig = SIGTRAP →
      Post (C.hit c r) ((s.reported b).withFault r.hitFault) Q E) :
    Post (C.await c deadline r) s Q E := by
  simp only [Command.await, post_bind, post_ite, post_pure]
  refine ⟨fun _ => hafter, fun _ => post_waitpidTimeout hwait fun b hb sig hsig => ?_⟩
  change Post _ (s.reported b) Q E
  cases h : waitStatus (s.reported b).tracee with
  | exited =>
    simp only [Session.reported_tracee] at h
    simp only [h, post_pure]
    exact hexited b hb sig hsig h
  | stopped cause =>
    have h' := h
    simp only [Session.reported_tracee] at h'
    simp only [h', post_ite, post_bind, post_contWith, post_modify, post_pure]
    exact ⟨hsignal b hb sig hsig cause h, fun hc => htrap b hb sig hsig cause h (not_not.1 hc)⟩

/-- **One iteration of the loop**: it is left before the tracee is resumed, or the tracee is
resumed, if it was not yet, and awaited. -/
theorem post_round {r : Round R} {s : Session R V ν}
    {Q : Option LoopExit → Session R V ν → Prop} {E : Exception → Session R V ν → Prop}
    (hcount : ¬ (s.results.length : ℤ) < c.count → Q (some .count) s)
    (hflag : Q (some .stopFlag) s) (hdead : Q (some .deadline) s)
    (hawait : (s.results.length : ℤ) < c.count → Post (C.await c deadline r) (s.resume r) Q E) :
    Post (C.round c deadline r) s Q E := by
  simp only [Command.round, post_bind, post_get, post_ite, post_pure, post_contWith, post_modify]
  refine ⟨hcount, fun hlt => ⟨fun _ => hflag, fun _ => ⟨fun _ => hdead, fun _ => ?_⟩⟩⟩
  have h := hawait (not_not.1 hlt)
  unfold Session.resume at h
  constructor <;> intro hn <;> rw [Session.withFault_needCont] at hn
  · rwa [if_pos hn] at h
  · rwa [if_neg hn] at h

/-- **The loop keeps an invariant**, and is left in a state that an iteration leaves it in. -/
theorem post_loop {I : Session R V ν → Prop} {X : LoopExit → Session R V ν → Prop}
    {E : Exception → Session R V ν → Prop} {rounds : List (Round R)}
    (hcount : ∀ s, I s → ¬ (s.results.length : ℤ) < c.count → X .count s)
    (hdead : ∀ s, I s → X .deadline s)
    (hround : ∀ r ∈ rounds, ∀ s, I s → Post (C.round c deadline r) s
      (fun e t => match e with | none => I t | some e => X e t) E)
    {s : Session R V ν} (hs : I s) : Post (C.loop c deadline rounds) s X E := by
  induction rounds generalizing s with
  | nil =>
    simp only [Command.loop, post_bind, post_get, post_ite, post_pure]
    exact ⟨hcount s hs, fun _ => hdead s hs⟩
  | cons r rounds ih =>
    rw [Command.loop, post_bind]
    refine (hround r (List.mem_cons_self ..) s hs).mono (fun e t h => ?_) fun _ _ h => h
    cases e with
    | some e => exact h
    | none => exact ih (fun r hr => hround r (List.mem_cons_of_mem _ hr)) h

/-- The session in which the loop starts: the entry breakpoint is planted. -/
structure Armed (C : Command R V ν) (c : Target) (s t : Session R V ν) : Prop where
  stopped : s.tracee.isStopped
  tracee : t.tracee =
    { s.tracee with mem := plant C.arch.makePatchedWord s.tracee.mem c.entryVaddr }
  vars : t.vars = C.start c (readWord s.tracee.mem c.entryVaddr)
  results : t.results = s.results
  needCont : t.needCont = true

/-- Planting the entry breakpoint succeeds, or one of its two requests fails and nothing is
changed. -/
theorem post_arm {env : Script R} {s : Session R V ν} {Q : Unit → Session R V ν → Prop}
    {E : Exception → Session R V ν → Prop} (hok : ∀ t, Armed C c s t → Q () t)
    (hfail : ∀ e t k q, ¬ (s.withFault env.setupFault).answersAt k q → t.tracee = s.tracee →
      E e t) :
    Post (C.arm c env) s Q E := by
  simp only [arm, post_bind, post_modify, post_insertBreakpoint]
  exact ⟨fun ha => ⟨fun _ => hok _ ⟨(Bool.and_eq_true _ _ ▸ ha).1, rfl, rfl, rfl, rfl⟩,
      fun h => hfail _ _ _ _ h rfl⟩,
    fun h => hfail _ _ _ _ h rfl⟩

theorem armed_of_arm {env : Script R} {s t : Session R V ν} (h : C.arm c env s = .ok () t) :
    Armed C c s t :=
  (post_arm (Q := fun _ t => Armed C c s t) (E := fun _ _ => True) (fun _ ht => ht)
    fun _ _ _ _ _ _ => trivial).ok h

/-- A tracee whose wait status is a stop is in that ptrace-stop. -/
theorem status_of_waitStatus {t : Tracee R} {cause : Cause} (h : waitStatus t = .stopped cause) :
    t.status = .stopped cause := by
  unfold waitStatus at h
  split at h
  next c hc => rw [hc, WaitStatus.stopped.inj h]
  · cases h

theorem isStopped_of_waitStatus {t : Tracee R} {cause : Cause} (h : waitStatus t = .stopped cause) :
    t.isStopped := by
  rw [Tracee.isStopped, status_of_waitStatus h]

/-- **An iteration keeps what the handling of a stop keeps**, if the tracee cannot spoil it: a
property `J` of the local variables and of bytes that the tracee never writes. -/
theorem post_round_keeps {J : Mem → V → Prop} {K : Addr → Prop}
    (hJ : ∀ {m m' v}, (∀ x, K x → m' x = m x) → J m v → J m' v)
    {E : Exception → Session R V ν → Prop} {r : Round R}
    (hK : ∀ x, K x → ∀ b ∈ behaviours r.polls, b.Keeps x) {τ : Bool} {s : Session R V ν}
    (hs : J s.tracee.mem s.vars ∧ s.tracee.traced = τ)
    (hhit : ∀ t : Session R V ν, t.tracee.isStopped → t.fault = r.hitFault →
      J t.tracee.mem t.vars ∧ t.tracee.traced = τ →
      Post (C.hit c r) t (fun _ t' => J t'.tracee.mem t'.vars) E) :
    Post (C.round c deadline r) s
      (fun _ t => J t.tracee.mem t.vars ∧ t.tracee.traced = τ) E := by
  refine post_round (fun _ => hs) hs hs fun _ => ?_
  have hres : J (s.resume r).tracee.mem (s.resume r).vars ∧ (s.resume r).tracee.traced = τ := by
    simpa using hs
  have hrep : ∀ b ∈ behaviours r.polls,
      J ((s.resume r).reported b).tracee.mem ((s.resume r).reported b).vars ∧
      ((s.resume r).reported b).tracee.traced = τ := fun b hb =>
    ⟨hJ (fun x hx => Session.reported_mem _ (hK x hx b hb)) hres.1,
      (Session.reported_traced _ b).trans hres.2⟩
  refine post_await hres hres (fun b hb _ _ _ => hrep b hb)
    (fun b hb _ _ cause _ _ => ?_) (fun b hb _ _ cause hst _ => ?_)
  · exact ⟨by simpa only [Session.forward_mem, Session.forward_vars] using (hrep b hb).1,
      by simpa only [Session.forward_traced] using (hrep b hb).2⟩
  · exact ((hhit (((s.resume r).reported b).withFault r.hitFault) (isStopped_of_waitStatus hst) rfl
      (hrep b hb)).and (C.hit_handled c r _)).mono
      (fun _ t' ht' => ⟨ht'.1, ht'.2.traced.trans (hrep b hb).2⟩) fun _ _ h => h.1

/-- **The loop keeps what the handling of a stop keeps.** -/
theorem post_loop_keeps {J : Mem → V → Prop} {K : Addr → Prop}
    (hJ : ∀ {m m' v}, (∀ x, K x → m' x = m x) → J m v → J m' v)
    {E : Exception → Session R V ν → Prop} {rounds : List (Round R)}
    (hK : ∀ x, K x → ∀ r ∈ rounds, ∀ b ∈ behaviours r.polls, b.Keeps x) {τ : Bool}
    {s : Session R V ν} (hs : J s.tracee.mem s.vars ∧ s.tracee.traced = τ)
    (hhit : ∀ r ∈ rounds, ∀ t : Session R V ν, t.tracee.isStopped → t.fault = r.hitFault →
      J t.tracee.mem t.vars ∧ t.tracee.traced = τ →
      Post (C.hit c r) t (fun _ t' => J t'.tracee.mem t'.vars) E) :
    Post (C.loop c deadline rounds) s
      (fun _ t => J t.tracee.mem t.vars ∧ t.tracee.traced = τ) E := by
  refine post_loop (I := fun t => J t.tracee.mem t.vars ∧ t.tracee.traced = τ)
    (fun _ h _ => h) (fun _ h => h) (fun r hr t ht => ?_) hs
  refine (post_round_keeps (J := J) hJ (fun x hx => hK x hx r hr) ht (hhit r hr)).mono
    (fun e t' ht' => ?_) fun _ _ h => h
  cases e <;> exact ht'

/-! ## Reaching a stop -/

variable (C c deadline)

/-- The iterations leave the loop running and lead from the first session to the second. -/
def Reaches : List (Round R) → Session R V ν → Session R V ν → Prop
  | [], s, t => s = t
  | r :: rounds, s, t => ∃ u, C.round c deadline r s = .ok none u ∧ Reaches rounds u t

/-- The iteration started in `s` comes to the handling of a `SIGTRAP` stop in `t`. -/
structure Handles (r : Round R) (s t : Session R V ν) : Prop where
  stop : ∃ b ∈ behaviours r.polls, t = ((s.resume r).reported b).withFault r.hitFault
  stopped : t.tracee.isStopped
  round : C.round c deadline r s = C.hit c r t

variable {C c deadline}

namespace Handles

variable {r : Round R} {s t : Session R V ν} (h : C.Handles c deadline r s t)
include h

theorem fault : t.fault = r.hitFault := by
  obtain ⟨b, -, rfl⟩ := h.stop
  rfl

theorem issued : t.issued = 0 := by
  obtain ⟨b, -, rfl⟩ := h.stop
  rfl

theorem vars : t.vars = s.vars := by
  obtain ⟨b, -, rfl⟩ := h.stop
  simp

theorem mem {x : Addr} (hx : ∀ b ∈ behaviours r.polls, b.Keeps x) :
    t.tracee.mem x = s.tracee.mem x := by
  obtain ⟨b, hb, rfl⟩ := h.stop
  rw [Session.withFault_tracee, Session.reported_mem _ (hx b hb), Session.resume_mem]

end Handles

/-- **An iteration comes to a stop** when there is time, and the tracee does something that ends in
a `SIGTRAP` stop. -/
theorem handles_of_stopped {r : Round R} {s : Session R V ν} {b : Behaviour R} {sig : Signal}
    {cause : Cause} {now : ℤ} (hcount : (s.results.length : ℤ) < c.count)
    (hstop : r.stopFlag = false) (hnow : r.now < deadline) (hnow2 : r.now2 < deadline)
    (hpolls : r.polls = [(now, .change b)])
    (hwait : now < r.waitStart + (deadline - r.now2).tdiv 1000000 * 1000000)
    (hsig : (s.resume r).tracee.status = .running sig)
    (hcause : waitStatus ((s.resume r).reported b).tracee = .stopped cause)
    (htrap : cause.stopSig = SIGTRAP) :
    C.Handles c deadline r s (((s.resume r).reported b).withFault r.hitFault) where
  stop := ⟨b, by simp [hpolls, behaviours], rfl⟩
  stopped := isStopped_of_waitStatus hcause
  round := by
    have hstatus : waitStatus ((s.resume r).tracee.advance b).report = .stopped cause := hcause
    have hreport : waitpidTimeout ((deadline - r.now2).tdiv 1000000) r.waitStart r.polls
        (s.resume r) = .ok (some (.stopped cause)) ((s.resume r).reported b) := by
      rw [hpolls, waitpidTimeout_change hwait hsig, hstatus]
      rfl
    have hawait : C.await c deadline r (s.resume r) =
        C.hit c r (((s.resume r).reported b).withFault r.hitFault) := by
      refine eq_of_post fun Q E hpost => ?_
      rw [await, if_neg (not_le.2 hnow2), post_bind_of_ok hreport]
      simp only [htrap, ne_eq, not_true_eq_false, if_false, post_bind, post_modify]
      exact hpost
    rw [← hawait]
    refine eq_of_post fun Q E hpost => ?_
    simp only [Command.round, post_bind, post_get, post_ite, post_pure, post_contWith, post_modify]
    refine ⟨fun h => absurd hcount h, fun _ => ⟨fun h => absurd h (by simp [hstop]),
      fun _ => ⟨fun h => absurd h (not_le.2 hnow), fun _ => ?_⟩⟩⟩
    unfold Session.resume at hpost
    constructor <;> intro hn <;> rw [Session.withFault_needCont] at hn
    · rwa [if_pos hn] at hpost
    · rwa [if_neg hn] at hpost

/-- What the iterations keep holds where they lead to. -/
theorem Reaches.keeps {J : Mem → V → Prop} {K : Addr → Prop}
    (hJ : ∀ {m m' v}, (∀ x, K x → m' x = m x) → J m v → J m' v) {rounds : List (Round R)}
    (hK : ∀ x, K x → ∀ r ∈ rounds, ∀ b ∈ behaviours r.polls, b.Keeps x) {s t : Session R V ν}
    (hs : J s.tracee.mem s.vars)
    (hhit : ∀ r ∈ rounds, ∀ t : Session R V ν, t.tracee.isStopped → J t.tracee.mem t.vars →
      Post (C.hit c r) t (fun _ t' => J t'.tracee.mem t'.vars) fun _ _ => True)
    (h : C.Reaches c deadline rounds s t) : J t.tracee.mem t.vars := by
  induction rounds generalizing s with
  | nil => exact h ▸ hs
  | cons r rounds ih =>
    obtain ⟨u, hround, hreach⟩ := h
    refine ih (fun x hx r hr => hK x hx r (List.mem_cons_of_mem _ hr)) ?_
      (fun r hr => hhit r (List.mem_cons_of_mem _ hr)) hreach
    exact ((post_round_keeps (J := J) hJ (fun x hx => hK x hx r (List.mem_cons_self ..)) ⟨hs, rfl⟩
      fun t ht _ hJt => hhit r (List.mem_cons_self ..) t ht hJt.1).ok hround).1

/-- Where the handling of a stop throws, the loop does. -/
theorem Reaches.loop_error {pre post : List (Round R)} {r : Round R} {s t u v : Session R V ν}
    {e : Exception} (h : C.Reaches c deadline pre s t) (hstop : C.Handles c deadline r t u)
    (hthrow : C.hit c r u = .error e v) : C.loop c deadline (pre ++ r :: post) s = .error e v := by
  induction pre generalizing s with
  | nil =>
    cases h
    rw [List.nil_append, loop, bind_error (hstop.round.trans hthrow)]
  | cons r' pre ih =>
    obtain ⟨s', hround, hreach⟩ := h
    rw [List.cons_append, loop, bind_ok hround]
    exact ih hreach

/-! ## Before and after the loop -/

/-- What a command has found out when its loop is prepared: the function is there, the tracee has
stopped for the first time, and there are no samples yet. -/
structure Prepared (impl : Impl) (funcName : Text) (env : Script R) (s : Session R V ν) (c : Target)
    (t : Session R V ν) : Prop where
  found : ∃ finder info, impl.finder = .ok finder ∧ finder.find funcName = some info ∧
    c.entryVaddr = info.address + impl.getAslrSlide
  stopped : ∃ b ∈ behaviours env.firstPolls, t.tracee = (s.tracee.attach.advance b).report
  results : t.results = []

theorem post_prepare_prepared {impl : Impl} {funcName : Text} {count timeoutMs : ℤ}
    {env : Script R} {s : Session R V ν} :
    Post (C.prepare impl funcName count timeoutMs env) s
      (fun p t => Prepared impl funcName env s p.1 t) fun _ _ => True := by
  unfold prepare
  split
  · trivial
  next finder hfinder =>
    split
    · trivial
    next info hfind =>
      rw [post_ite]
      refine ⟨fun _ => trivial, fun _ => ?_⟩
      split
      · trivial
      · simp only [post_bind, post_modify]
        refine post_waitpidTimeout ?_ fun b hb _ _ => ?_
        · simp [post_ptraceDetach]
        · simp only [post_bind, post_modify, post_ite, post_throw, post_pure]
          exact ⟨fun _ => trivial,
            fun _ => ⟨⟨finder, info, hfinder, hfind, rfl⟩, ⟨b, hb, rfl⟩, rfl⟩⟩

/-- The buffer for the samples is reserved, and the deadline set, before the loop. -/
theorem post_prepare_count {impl : Impl} {funcName : Text} {count timeoutMs : ℤ} {env : Script R}
    {s : Session R V ν} : Post (C.prepare impl funcName count timeoutMs env) s
      (fun p _ => (p.1.count = count ∧ 0 ≤ count) ∧ p.2 = env.start + timeoutMs * 1000000)
      fun _ _ => True := by
  unfold prepare
  split
  · trivial
  · split
    · trivial
    · rw [post_ite]
      refine ⟨fun _ => trivial, fun _ => ?_⟩
      split
      · trivial
      · simp only [post_bind, post_modify]
        refine post_waitpidTimeout ?_ fun b hb _ _ => ?_
        · simp [post_ptraceDetach]
        · simp only [post_bind, post_modify, post_ite, post_throw, post_pure]
          exact ⟨fun _ => trivial, fun hcount => ⟨⟨trivial, not_lt.1 hcount⟩, trivial⟩⟩

theorem count_of_prepare {impl : Impl} {funcName : Text} {count timeoutMs : ℤ} {env : Script R}
    {s : Session R V ν} : Post (C.prepare impl funcName count timeoutMs env) s
      (fun p _ => p.1.count = count ∧ 0 ≤ count) fun _ _ => True :=
  post_prepare_count.mono (fun _ _ h => h.1) fun _ _ h => h

theorem deadline_of_prepare {impl : Impl} {funcName : Text} {count timeoutMs : ℤ}
    {env : Script R} {s : Session R V ν} : Post (C.prepare impl funcName count timeoutMs env) s
      (fun p _ => p.2 = env.start + timeoutMs * 1000000) fun _ _ => True :=
  post_prepare_count.mono (fun _ _ h => h.2) fun _ _ h => h

section Prepared

variable {impl : Impl} {funcName : Text} {count timeoutMs : ℤ} {env : Script R}
  {s t : Session R V ν}

theorem prepared_of_prepare
    (h : C.prepare impl funcName count timeoutMs env s = .ok (c, deadline) t) :
    Prepared impl funcName env s c t :=
  post_prepare_prepared.ok h

/-- Up to the loop, the bytes that the tracee never writes are kept. -/
theorem Prepared.keeps (h : Prepared impl funcName env s c t) {x : Addr} (hx : env.Keeps x) :
    t.tracee.mem x = s.tracee.mem x := by
  obtain ⟨b, hb, ht⟩ := h.stopped
  rw [ht, Tracee.report_mem, Tracee.advance_mem _ (hx.first hb), Tracee.attach_mem]

/-- The entry breakpoint is planted at the address of the function plus the slide. -/
theorem Prepared.entryVaddr (h : Prepared impl funcName env s c t) {finder : SymbolFinder}
    {info : FuncInfo} (hfinder : impl.finder = .ok finder)
    (hfind : finder.find funcName = some info) :
    c.entryVaddr = info.address + impl.getAslrSlide := by
  obtain ⟨finder', info', hfinder', hfind', hentry⟩ := h.found
  cases hfinder.symm.trans hfinder'
  cases hfind.symm.trans hfind'
  exact hentry

end Prepared

/-- When the loop throws, the guard runs. -/
theorem guarded_error {env : Script R} {s t : Session R V ν} {e : Exception}
    (h : C.loop c deadline env.rounds s = .error e t) :
    C.guarded c deadline env s =
      ((do C.guard c; throw e) : Engine R V ν LoopExit) (t.withFault env.guardFault) := by
  simp only [guarded, tryCatch, tryCatchThe, MonadExceptOf.tryCatch, EStateM.tryCatch, h]
  rfl

/-- Where the loop returns, the cleanup ends the command. -/
theorem run_of_loop_ok {impl : Impl} {funcName : Text} {count timeoutMs : ℤ} {env : Script R}
    {s₀ s s₁ t : Session R V ν} {e : LoopExit}
    (hprep : C.prepare impl funcName count timeoutMs env s₀ = .ok (c, deadline) s)
    (harm : C.arm c env s = .ok () s₁) (hloop : C.loop c deadline env.rounds s₁ = .ok e t) :
    C.run impl funcName count timeoutMs env s₀ = C.finish c env t := by
  have hguarded : C.guarded c deadline env s₁ = .ok e t := by
    simp only [guarded, tryCatch, tryCatchThe, MonadExceptOf.tryCatch, EStateM.tryCatch, hloop]
  rw [run, bind_ok hprep]
  exact (bind_ok harm).trans (bind_ok hguarded)

/-- A command that returns has come through its loop and its cleanup. -/
theorem run_eq_ok {impl : Impl} {funcName : Text} {count timeoutMs : ℤ} {env : Script R}
    {s₀ u : Session R V ν} {l : List ν}
    (h : C.run impl funcName count timeoutMs env s₀ = .ok l u) :
    ∃ c deadline s s₁ e t, C.prepare impl funcName count timeoutMs env s₀ = .ok (c, deadline) s ∧
      C.arm c env s = .ok () s₁ ∧ C.loop c deadline env.rounds s₁ = .ok e t ∧
      C.finish c env t = .ok l u := by
  obtain ⟨⟨c, deadline⟩, s, hprep, h⟩ := bind_eq_ok h
  obtain ⟨⟨⟩, s₁, harm, h⟩ := bind_eq_ok h
  obtain ⟨e, t, hguarded, hfinish⟩ := bind_eq_ok h
  refine ⟨c, deadline, s, s₁, e, t, hprep, harm, ?_, hfinish⟩
  cases hloop : C.loop c deadline env.rounds s₁ with
  | ok e' t' =>
    simp only [guarded, tryCatch, tryCatchThe, MonadExceptOf.tryCatch, EStateM.tryCatch,
      hloop] at hguarded
    exact hguarded
  | error e' t' =>
    rw [guarded_error hloop] at hguarded
    obtain ⟨_, _, _, hthrow⟩ := bind_eq_ok hguarded
    cases hthrow

/-- Where the loop throws, the command does, after its guard. -/
theorem post_run_of_loop_error {impl : Impl} {funcName : Text} {count timeoutMs : ℤ}
    {env : Script R} {s₀ s s₁ t : Session R V ν} {e : Exception} {P : Session R V ν → Prop}
    (hprep : C.prepare impl funcName count timeoutMs env s₀ = .ok (c, deadline) s)
    (harm : C.arm c env s = .ok () s₁) (hloop : C.loop c deadline env.rounds s₁ = .error e t)
    (hguard : Post (C.guard c) (t.withFault env.guardFault) (fun _ u => P u) fun _ u => P u) :
    P (finalState (C.run impl funcName count timeoutMs env) s₀) := by
  refine post_finalState.1 ?_
  rw [run, post_bind_of_ok hprep]
  simp only [post_bind_of_ok harm]
  rw [post_bind, post_congr (guarded_error hloop)]
  simp only [post_bind, post_throw]
  exact hguard

end Command

end Uatu
