import Uatu.Engine.Loop
import Uatu.Engine.Stack
import Uatu.Engine.Trace

/-!
# The signals of the tracee

A sampling command passes on the signal of every stop but the first, which it takes for the
`SIGSTOP` of its attach. So the signals delivered are those of the later stops (`Accounted`), and
what becomes of the first stop and of the attach's own `SIGSTOP` depends on the order in which the
kernel reports them: `signals_transparent_iff`.
-/

namespace Uatu

open Throwing

variable {R V ν : Type}

/-- A signal-delivery-stop for a signal that is the tracee's own business. -/
def Cause.counted : Cause → Bool
  | .signal sig => sig ≠ SIGTRAP
  | _ => false

/-- A stop whose signal the loop delivers: it cannot tell the `SIGSTOP` of the attach from any
other. -/
def Cause.forwarded : Cause → Bool
  | .attach => true
  | c => c.counted

/-- Every reported signal but `SIGTRAP` is delivered once, with its own number and in order, and
nothing else is: not the `SIGSTOP` of the attach. -/
def Tracee.Transparent (t : Tracee R) : Prop := t.delivered = t.reported.filter Cause.counted

/-- The behaviour stops for signals with a number. -/
def Behaviour.Signals (b : Behaviour R) : Prop := ∀ sig m r, (b sig m r).stop ≠ some (.signal 0)

/-- What has been delivered is what the loop passes on of the stops after the first. -/
structure Tracee.Logged (t : Tracee R) : Prop where
  reported : t.reported ≠ []
  delivered : t.delivered = t.reported.tail.filter Cause.forwarded
  traced : t.traced = true

/-- What has been delivered at the end: a `SIGSTOP` of the attach that is still pending when the
tracee is detached is delivered too. -/
def Tracee.Accounted (t : Tracee R) : Prop :=
  t.delivered = t.reported.tail.filter Cause.forwarded ++
    if t.traced = false ∧ t.attachPending = true then [.attach] else []

/-- The order of the stops the loop relies on: the first one reported was not for a signal of the
tracee's own, and the `SIGSTOP` of the attach was neither reported later nor still pending when the
tracee was detached. -/
structure Tracee.AttachFirst (t : Tracee R) : Prop where
  first : ∀ c ∈ t.reported.head?, c.counted = false
  later : .attach ∉ t.reported.tail
  pending : ¬ (t.traced = false ∧ t.attachPending = true)

/-- Passing on the signal of a stop delivers what the stop is counted for. -/
theorem Cause.inject_stopSig {c : Cause} (h0 : c ≠ .signal 0) (h : c.stopSig ≠ SIGTRAP) :
    c.inject c.stopSig = [c].filter Cause.forwarded := by
  cases c with
  | attach => rfl
  | signal sig =>
    have hsig : sig ≠ 0 := fun hs => h0 (hs ▸ rfl)
    have htrap : sig ≠ SIGTRAP := h
    simp [inject, stopSig, forwarded, counted, hsig, htrap]
  | group sig => rfl

theorem Cause.forwarded_of_trap {c : Cause} (h : c.stopSig = SIGTRAP) : c.forwarded = false := by
  cases c with
  | attach => cases h
  | signal sig => simp only [stopSig] at h; simp [forwarded, counted, h]
  | group sig => rfl

namespace Tracee

variable {t : Tracee R}

theorem Logged.accounted (h : t.Logged) : t.Accounted := by
  simp [Accounted, h.delivered, h.traced]

/-- **The accounts of a finished command** agree with the signals reported exactly when the
`SIGSTOP` of the attach came first, or took no signal's place. -/
theorem Accounted.transparent_iff (h : t.Accounted) : t.Transparent ↔ t.AttachFirst := by
  have hsame : ∀ l : List Cause, .attach ∉ l → l.filter Cause.forwarded = l.filter Cause.counted :=
    fun l hl => List.filter_congr fun c hc => by cases c with
      | attach => exact (hl hc).elim
      | signal sig => rfl
      | group sig => rfl
  have hno : .attach ∉ t.reported.filter Cause.counted := fun hm => by
    simpa [Cause.counted] using (List.mem_filter.1 hm).2
  unfold Transparent
  rw [h]
  constructor
  · intro heq
    rw [← heq] at hno
    simp only [List.mem_append, List.mem_filter, not_or, not_and] at hno
    have htail : .attach ∉ t.reported.tail := fun hm => hno.1 hm rfl
    have hpend : ¬ (t.traced = false ∧ t.attachPending = true) := fun hp => by
      simp [hp] at hno
    refine ⟨fun c hc => ?_, htail, hpend⟩
    rw [if_neg hpend, List.append_nil, hsame _ htail] at heq
    cases hr : t.reported with
    | nil => simp [hr] at hc
    | cons c' l =>
      obtain rfl : c' = c := by simpa [hr] using hc
      rw [hr, List.tail_cons, List.filter_cons] at heq
      by_contra hcount
      rw [if_pos (by simpa using hcount)] at heq
      simpa using congrArg List.length heq
  · intro ⟨hhead, htail, hpend⟩
    rw [if_neg hpend, List.append_nil, hsame _ htail]
    cases hr : t.reported with
    | nil => rfl
    | cons c l =>
      rw [List.tail_cons, List.filter_cons, if_neg (by simp [hhead c (by simp [hr])])]

end Tracee

/-! ## The run of a command -/

/-- `PTRACE_CONT` succeeds on a stopped tracee, and stops are for signals with a number. -/
structure Script.Resumes (env : Script R) : Prop where
  cont : ∀ r ∈ env.rounds, ∀ n, r.contFault n .cont = false
  signals : ∀ b ∈ env.behaviours, b.Signals

namespace Session

variable {s t : Session R V ν}

theorem Handled.logged (h : s.Handled t) (hs : s.tracee.Logged) : t.tracee.Logged :=
  ⟨h.reported ▸ hs.reported, by rw [h.delivered, h.reported, hs.delivered],
    h.traced.trans hs.traced⟩

/-- The guard and the cleanup deliver at most the `SIGSTOP` of the attach. -/
theorem Ended.accounted (h : s.Ended t) (hs : s.tracee.Logged) : t.tracee.Accounted := by
  obtain h | ⟨u, h, rfl⟩ := h
  · exact (h.logged hs).accounted
  · have hu := h.logged hs
    cases hp : u.tracee.attachPending <;> simp [Tracee.Accounted, Tracee.detach, hu.delivered, hp]

theorem resume_logged (r : Round R) (hs : s.tracee.Logged) : (s.resume r).tracee.Logged := by
  rw [resume_tracee]
  split_ifs
  · exact ⟨by simpa using hs.reported, by simp [Tracee.cont_zero_delivered, hs.delivered],
      by simp [hs.traced]⟩
  · exact hs

/-- A wait that ends with a signal passed on delivers it. -/
theorem forward_logged {r : Round R} {b : Behaviour R} {sig : Signal} {c : Cause}
    (hcont : ∀ n, r.contFault n .cont = false) (hb : b.Signals) (hs : (s.resume r).tracee.Logged)
    (hrun : (s.resume r).tracee.status = .running sig)
    (hstop : waitStatus ((s.resume r).reported b).tracee = .stopped c) (hc : c.stopSig ≠ SIGTRAP) :
    (((s.resume r).reported b).forward c.stopSig).tracee.Logged := by
  have hst := Command.status_of_waitStatus hstop
  have hans : ((s.resume r).reported b).answers .cont := by
    have hf : ((s.resume r).reported b).fault = r.contFault := resume_fault s r
    simp only [answers, hf, hcont, Command.isStopped_of_waitStatus hstop, Bool.not_false,
      Bool.and_self]
  have hadv : ((s.resume r).tracee.advance b).status = .stopped c := by
    simpa using hst
  have hrep : ((s.resume r).reported b).tracee.reported = (s.resume r).tracee.reported ++ [c] := by
    rw [reported_tracee, Tracee.report_reported hadv, Tracee.advance_reported]
  have hdel : ((s.resume r).reported b).tracee.delivered = (s.resume r).tracee.delivered := by
    rw [reported_tracee, Tracee.report_delivered, Tracee.advance_delivered]
  have h0 : c ≠ .signal 0 := by
    obtain ⟨c', hc', rfl⟩ := Tracee.advance_stopped hrun hadv
    cases c' with
    | attach =>
      simp only [Tracee.causeOf]
      split_ifs <;> simp [SIGSTOP]
    | signal sig' => exact fun h => hb _ _ _ (hc'.trans (congrArg some h))
    | group sig' => exact fun h => by cases h
  rw [forward_tracee, if_pos hans]
  refine ⟨by rw [Tracee.cont_reported, hrep]; exact List.concat_ne_nil _ _, ?_,
    by simpa using hs.traced⟩
  rw [Tracee.cont_delivered hst, Tracee.cont_reported, hrep, hdel, hs.delivered,
    List.tail_append_of_ne_nil hs.reported, List.filter_append, Cause.inject_stopSig h0 hc]

/-- A wait that ends without a signal to pass on delivers nothing. -/
theorem reported_logged {b : Behaviour R} {sig : Signal} (hs : s.tracee.Logged)
    (hrun : s.tracee.status = .running sig)
    (hc : ∀ c, waitStatus (s.reported b).tracee = .stopped c → c.stopSig = SIGTRAP) :
    (s.reported b).tracee.Logged := by
  have hdel : (s.reported b).tracee.delivered = s.tracee.delivered := by
    rw [reported_tracee, Tracee.report_delivered, Tracee.advance_delivered]
  cases hst : (s.tracee.advance b).status with
  | running sig' =>
    have := Tracee.advance_status s.tracee sig b hrun
    simp [Tracee.isStopped, hst] at this
  | exited =>
    have hrep : (s.reported b).tracee.reported = s.tracee.reported := by
      rw [reported_tracee, Tracee.report_reported_of_exited hst, Tracee.advance_reported]
    exact ⟨hrep ▸ hs.reported, by rw [hdel, hrep, hs.delivered], by simp [hs.traced]⟩
  | stopped c =>
    have hrep : (s.reported b).tracee.reported = s.tracee.reported ++ [c] := by
      rw [reported_tracee, Tracee.report_reported hst, Tracee.advance_reported]
    have htrap : c.stopSig = SIGTRAP := hc c (by simp [waitStatus, hst])
    refine ⟨by rw [hrep]; exact List.concat_ne_nil _ _, ?_, by simp [hs.traced]⟩
    rw [hdel, hrep, hs.delivered, List.tail_append_of_ne_nil hs.reported, List.filter_append,
      List.filter_cons_of_neg (by simp [Cause.forwarded_of_trap htrap]), List.filter_nil,
      List.append_nil]

end Session

namespace Command

variable {C : Command R V ν} {impl : Impl} {funcName : Text} {count timeoutMs : ℤ} {env : Script R}

/-- An iteration keeps the log of the signals, however it ends. -/
theorem post_round_logged {c : Target} {deadline : ℤ} {r : Round R} (he : env.Resumes)
    (hr : r ∈ env.rounds) {s : Session R V ν} (hs : s.tracee.Logged) :
    Post (C.round c deadline r) s (fun _ t => t.tracee.Logged) (fun _ t => t.tracee.Logged) := by
  refine post_round (fun _ => hs) hs hs fun _ => ?_
  have hres := Session.resume_logged r hs
  refine post_await hres hres (fun b _ sig hrun hexit => ?_) (fun b hb sig hrun cause hst hc => ?_)
    (fun b _ sig hrun cause hst hc => ?_)
  · exact Session.reported_logged hres hrun fun c' hc' => by rw [hexit] at hc'; cases hc'
  · exact Session.forward_logged (he.cont r hr) (he.signals b (Script.mem_behaviours hr hb)) hres
      hrun hst hc
  · have hrep := Session.reported_logged hres hrun fun c' hc' => by
      rw [hst] at hc'; cases hc'; exact hc
    exact (C.hit_handled c r _).mono (fun _ t ht => ht.logged hrep) fun _ t ht => ht.logged hrep

/-- The first stop is logged, and nothing is delivered for it. -/
theorem first_logged {t : Tracee R} {b : Behaviour R} {sig : Signal} (hrep : t.reported = [])
    (hdel : t.delivered = []) (ht : t.traced = true) (hrun : t.status = .running sig) :
    ((t.advance b).report.isStopped → (t.advance b).report.Logged) ∧
      (t.advance b).report.Accounted := by
  have hdel' : (t.advance b).delivered = [] := by rw [Tracee.advance_delivered, hdel]
  cases hst : (t.advance b).status with
  | running sig' =>
    have := Tracee.advance_status t sig b hrun
    simp [Tracee.isStopped, hst] at this
  | exited =>
    have hrep' : (t.advance b).report.reported = [] := by
      rw [Tracee.report_reported_of_exited hst, Tracee.advance_reported, hrep]
    exact ⟨fun h => by simp [Tracee.isStopped, hst] at h,
      by simp [Tracee.Accounted, hdel', hrep', ht]⟩
  | stopped c =>
    have hrep' : (t.advance b).report.reported = [c] := by
      rw [Tracee.report_reported hst, Tracee.advance_reported, hrep, List.nil_append]
    have hlog : (t.advance b).report.Logged :=
      ⟨by simp [hrep'], by simp [hdel', hrep'], by simp [ht]⟩
    exact ⟨fun _ => hlog, hlog.accounted⟩

/-- Before the loop, one stop has been reported, or the command has ended with nothing to account
for. -/
theorem post_prepare_logged {s : Session R V ν} (hrep : s.tracee.reported = [])
    (hdel : s.tracee.delivered = []) (hp : s.tracee.attachPending = false) :
    Post (C.prepare impl funcName count timeoutMs env) s
      (fun _ t => (t.tracee.isStopped → t.tracee.Logged) ∧ t.tracee.Accounted)
      (fun _ t => t.tracee.Accounted) := by
  have hidle : s.tracee.Accounted := by simp [Tracee.Accounted, hrep, hdel, hp]
  unfold prepare
  split
  · exact hidle
  · split
    · exact hidle
    · rw [post_ite]
      refine ⟨fun _ => hidle, fun _ => ?_⟩
      split
      · exact hidle
      · simp only [post_bind, post_modify]
        refine post_waitpidTimeout ?_ fun b _ sig hrun => ?_
        · simp [Tracee.Accounted, Tracee.attach, Tracee.detach, hrep, hdel]
        · have hfirst := first_logged (t := s.tracee.attach) (b := b) hrep hdel rfl hrun
          simp only [post_bind, post_modify, post_ite, post_throw, post_pure]
          exact ⟨fun _ => hfirst.2, fun _ => hfirst⟩

/-- **The signals of a run**: what is delivered is what the loop passes on of the stops after the
first, and the `SIGSTOP` of the attach if it is still pending at the end. -/
theorem run_accounted (he : env.Resumes) {s : Session R V ν} (hrep : s.tracee.reported = [])
    (hdel : s.tracee.delivered = []) (hp : s.tracee.attachPending = false) :
    (finalState (C.run impl funcName count timeoutMs env) s).tracee.Accounted := by
  have hlate : ∀ t : Tracee R, t.Logged → (late env t).Logged := fun t ht => by
    unfold late
    split
    · exact ⟨by simpa [Tracee.advance_reported] using ht.reported,
        by simpa [Tracee.advance_delivered, Tracee.advance_reported] using ht.delivered,
        by simpa using ht.traced⟩
    · exact ht
  have hrun : Post (C.run impl funcName count timeoutMs env) s
      (fun _ t => t.tracee.Accounted) (fun _ t => t.tracee.Accounted) := by
    simp only [run, post_bind]
    refine (post_prepare_logged hrep hdel hp).mono (fun p t ht => ?_) fun _ _ h => h
    refine post_arm (fun t' harm => ?_) fun _ t' _ _ _ ht' => ht' ▸ ht.2
    have hstart : t'.tracee.Logged := by
      have hlog := ht.1 harm.stopped
      rw [harm.tracee]
      exact ⟨hlog.reported, hlog.delivered, hlog.traced⟩
    simp only [guarded, post_tryCatch]
    refine (post_loop (I := fun t => t.tracee.Logged) (X := fun _ t => t.tracee.Logged)
      (E := fun _ t => t.tracee.Logged) (fun _ h _ => h) (fun _ h => h) (fun r hr t ht => ?_)
      hstart).mono (fun _ t ht => ?_) fun _ t ht => ?_
    · exact (post_round_logged he hr ht).mono (fun e t h => by cases e <;> exact h) fun _ _ h => h
    · simp only [finish, post_bind, post_modify, post_get, post_pure]
      exact (C.cleanup_ended p.1 _).mono
        (fun _ t' h => h.accounted (hlate _ ht)) fun _ t' h => h.accounted (hlate _ ht)
    · simp only [post_bind, post_modify, post_throw]
      exact (C.guard_ended p.1 _).mono (fun _ t' h => h.accounted ht) fun _ t' h => h.accounted ht
  exact post_finalState.1 hrun

end Command

/-- **The signals of `trace()` and `stack()`.** Every reported signal but `SIGTRAP` is delivered
exactly once and the `SIGSTOP` of the attach never, in exactly the runs in which the kernel reports
the stops in the order `AttachFirst`. -/
theorem signals_transparent_iff (A : Arch R) (impl : Impl) (funcName : Text) (count timeoutMs : ℤ)
    (env : Script R) (he : env.Resumes) :
    (∀ s₀ : Session R TraceVars TraceNode, s₀.tracee.reported = [] → s₀.tracee.delivered = [] →
      s₀.tracee.attachPending = false →
      ((finalState (trace A impl funcName count timeoutMs env) s₀).tracee.Transparent ↔
        (finalState (trace A impl funcName count timeoutMs env) s₀).tracee.AttachFirst)) ∧
    (∀ s₀ : Session R StackVars StackEvent, s₀.tracee.reported = [] → s₀.tracee.delivered = [] →
      s₀.tracee.attachPending = false →
      ((finalState (stack A impl funcName count timeoutMs env) s₀).tracee.Transparent ↔
        (finalState (stack A impl funcName count timeoutMs env) s₀).tracee.AttachFirst)) :=
  ⟨fun _ hrep hdel hp => (Command.run_accounted he hrep hdel hp).transparent_iff,
    fun _ hrep hdel hp => (Command.run_accounted he hrep hdel hp).transparent_iff⟩

/-- The attach stops the tracee first, and then a `SIGUSR1` comes. -/
theorem signals_transparent_iff_usr1 :
    let env : Script X86Regs := .sampling [.polling [(0, .change (.stop (.signal 10)))]]
    let t := (finalState (trace x86_64 Impl.single "f".toList 1 1 env) (.single default)).tracee
    let t' := (finalState (stack x86_64 Impl.single "f".toList 1 1 env) (.single default)).tracee
    (t.Transparent ↔ t.AttachFirst) ∧ (t'.Transparent ↔ t'.AttachFirst) :=
  have he : (Script.sampling [.polling [(0, .change (.stop (.signal 10)))]] :
      Script X86Regs).Resumes :=
    ⟨by simp [Script.sampling, Round.polling, Fault.none],
      by simp [Script.behaviours, behaviours, Script.sampling, Round.polling, Behaviour.Signals,
        Behaviour.stop]⟩
  have h := signals_transparent_iff x86_64 Impl.single "f".toList 1 1 _ he
  ⟨h.1 _ rfl rfl rfl, h.2 _ rfl rfl rfl⟩

/-- A `SIGUSR1` is reported before the `SIGSTOP` of the attach: it is lost, and the `SIGSTOP` is
delivered. -/
theorem trace_swaps_signals :
    let env : Script X86Regs :=
      { Script.sampling [.polling [(0, .change (.stop .attach))]] with
        firstPolls := [(0, .change (.stop (.signal 10)))] }
    let t := (finalState (trace x86_64 Impl.single "f".toList 1 1 env) (.single default)).tracee
    env.Resumes ∧ t.reported = [.signal 10, .attach] ∧ t.delivered = [.attach] ∧
      ¬ t.Transparent := by
  refine ⟨⟨by simp [Script.sampling, Round.polling, Fault.none], ?_⟩, by decide, by decide,
    by unfold Tracee.Transparent; decide⟩
  simp [Script.behaviours, behaviours, Script.sampling, Round.polling, Behaviour.Signals,
    Behaviour.stop]

end Uatu
