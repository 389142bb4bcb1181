import Uatu.Engine.EventBound
import Uatu.Engine.Restore

/-!
# A process after a command

However a command ends, by an exception or with its samples, the process is left alone or it is left
attached, if requests fail for no reason other than its state (`Command.Undoes.post_run_leaves`).
Where it is left alone its memory is as before, but for what it writes itself and for the word at
address `0`, where no process has a page. `watch_checked` leaves it alone or attached likewise
(`post_watchChecked_leaves`). A process that is attached already is not attached to again, and
nothing is done to it (`Command.post_run_refused`).
-/

namespace Uatu

open ByteMemory Throwing

variable {R V ν : Type}

namespace Tracee

/-- Nobody traces the process. -/
structure Free (t : Tracee R) : Prop where
  traced : t.traced = false
  stopped : ¬ t.isStopped

/-- The process has been left alone: nobody traces it, and its bytes are as before. -/
structure LeftAlone (K : Addr → Prop) (t t' : Tracee R) : Prop where
  free : t'.Free
  mem : ∀ x, K x → t'.mem x = t.mem x

/-- The process has been left alone or attached. -/
def Leaves (K : Addr → Prop) (t t' : Tracee R) : Prop := t'.traced = true ∨ t.LeftAlone K t'

variable {K : Addr → Prop} {t t' t'' : Tracee R}

theorem LeftAlone.refl (h : t.Free) : t.LeftAlone K t := ⟨h, fun _ _ => rfl⟩

theorem LeftAlone.trans (h : t.LeftAlone K t') (h' : t'.LeftAlone K t'') : t.LeftAlone K t'' :=
  ⟨h'.free, fun x hx => (h'.mem x hx).trans (h.mem x hx)⟩

theorem LeftAlone.trans_leaves (h : t.LeftAlone K t') (h' : t'.Leaves K t'') : t.Leaves K t'' :=
  h'.imp id fun h' => h.trans h'

end Tracee

/-- The tracee itself writes none of these bytes, and none of them is at address `0`. -/
def Script.Spares (env : Script R) (K : Addr → Prop) : Prop :=
  ∀ x, K x → env.Keeps x ∧ ¬ InWord 0 x

namespace Command

variable {C : Command R V ν} {impl : Impl} {funcName : Text} {count timeoutMs : ℤ}
  {env : Script R} {s s₀ : Session R V ν} {c : Target} {K : Addr → Prop}
  {Holds : Target → Addr → BitVec 8 → Mem → V → Prop} {Left : Target → V → Addr → BitVec 8 → Prop}

/-- Where `PTRACE_ATTACH` fails, nothing happens. -/
theorem post_run_refused {text : Text} (h : env.attachError = some text) :
    Post (C.run impl funcName count timeoutMs env) s₀ (fun _ _ => False)
      fun _ t => t.tracee = s₀.tracee := by
  rw [run, post_bind]
  unfold prepare
  split
  · rfl
  · split
    · rfl
    · rw [post_ite]
      refine ⟨fun _ => rfl, fun _ => ?_⟩
      rw [h]
      rfl

/-- A command that does not get past its first wait throws. The process is not attached to, or it
does not stop in time and is left attached. -/
theorem post_prepare_of_not_attaches (h : ¬ env.Attaches impl funcName s₀)
    (hs : s₀.tracee.Free) : Post (C.prepare impl funcName count timeoutMs env) s₀
      (fun _ _ => False) fun _ t => s₀.tracee.Leaves K t.tracee := by
  have hstay : s₀.tracee.Leaves K s₀.tracee := .inr (.refl hs)
  unfold prepare
  split
  · exact hstay
  next finder hfinder =>
    split
    · exact hstay
    next info hfind =>
      rw [post_ite]
      refine ⟨fun _ => hstay, fun haddr => ?_⟩
      split
      · exact hstay
      next hattach =>
        simp only [post_bind, post_modify]
        have hwait : Post (waitpidTimeout 5000 env.firstStart env.firstPolls)
            ((s₀.withFault env.attachFault).mapTracee Tracee.attach)
            (fun o t => o = none → t = (s₀.withFault env.attachFault).mapTracee Tracee.attach)
            fun _ _ => False :=
          post_waitpidTimeout (fun _ => rfl) fun b _ sig _ h => by cases h
        obtain ⟨o, t, hok, ht⟩ := hwait.exists_ok
        refine post_of_ok hok ?_
        cases o with
        | some status => exact absurd ⟨⟨finder, info, hfinder, hfind, haddr⟩, hattach, _, _, hok⟩ h
        | none =>
          have hrunning : ¬ ((s₀.withFault env.attachFault).mapTracee
              Tracee.attach).tracee.isStopped := hs.stopped
          rw [ht rfl]
          simp only [post_bind, post_ptraceDetach, post_throw]
          exact ⟨fun hanswers => absurd hanswers (not_answers_of_not_stopped hrunning .detach),
            fun _ => .inl rfl⟩

/-- A cleanup that leaves the tracee detached leaves it running. -/
theorem not_stopped_of_ended {t : Session R V ν} (h : s.Ended t) (hs : s.tracee.traced = true)
    (ht : t.tracee.traced = false) : ¬ t.tracee.isStopped := by
  obtain h | ⟨u, -, rfl⟩ := h
  · rw [h.traced, hs] at ht
    cases ht
  · exact Bool.false_ne_true

theorem post_finish_ended : Post (C.finish c env) s
    (fun _ t => ((s.mapTracee (late env)).withFault env.cleanupFault).Ended t)
    fun _ _ => True := by
  simp only [finish, post_bind, post_modify, post_get, post_pure]
  exact (C.cleanup_ended c _).mono (fun _ _ h => h) fun _ _ _ => trivial

/-- **A command leaves the process alone or attached.** -/
theorem Undoes.post_run_leaves (hC : C.Undoes Holds Left)
    (hzero : ∀ {c v x o}, Left c v x o → InWord 0 x) (hf : env.FaultFree) (hs : s₀.tracee.Free)
    (hK : env.Spares K) : Post (C.run impl funcName count timeoutMs env) s₀
      (fun _ t => s₀.tracee.Leaves K t.tracee) fun _ t => s₀.tracee.Leaves K t.tracee := by
  by_cases ha : env.Attaches impl funcName s₀
  · rw [run_eq, post_bind]
    refine (hC.post_sample ha hf).mono (fun p t ht => ?_) fun _ t ht => .inl ht.1
    obtain ⟨-, htraced, hholds⟩ := ht
    by_cases hstopped : (late env t.tracee).isStopped
    · refine ((hC.post_finish hstopped hf hholds).and post_finish_ended).mono
        (fun l u hu => .inr ⟨⟨hu.1.2.1, ?_⟩, fun x hx => ?_⟩) fun _ _ h => h.1.elim
      · exact not_stopped_of_ended hu.2 (by simpa using htraced) hu.1.2.1
      · exact (hu.1.2.2 x (hK x hx).1).2 fun hleft => (hK x hx).2 (hzero hleft)
    · exact (hC.post_finish_running hstopped htraced).mono (fun _ _ h => .inl h)
        fun _ _ h => .inl h
  · rw [run, post_bind]
    exact (post_prepare_of_not_attaches ha hs).mono (fun _ _ h => h.elim) fun _ _ h => h

end Command

/-! ## `trace()` and `stack()` -/

variable {A : Arch R} {impl : Impl} {funcName : Text} {count timeoutMs : ℤ} {env : Script R}
  {K : Addr → Prop}

theorem Trace.inWord_of_left {c : Target} {v : TraceVars} {x : Addr} {o : BitVec 8}
    (h : Left A c v x o) : InWord 0 x := by
  obtain ⟨⟨-, hzero⟩, -, hshown⟩ := h
  by_contra hx
  rw [← hzero] at hx
  exact hshown (shown_of_not_inWord hx)

theorem Stack.inWord_of_left {c : Target} {v : StackVars} {x : Addr} {o : BitVec 8}
    (h : Left A c v x o) : InWord 0 x := by
  obtain ⟨⟨-, hzero⟩, hshown⟩ := h
  by_contra hx
  rw [← hzero] at hx
  exact hshown (shown_of_not_inWord hx)

theorem post_stack_leaves {s : Session R StackVars StackEvent} (hf : env.FaultFree)
    (hs : s.tracee.Free) (hK : env.Spares K) :
    Post (stack A impl funcName count timeoutMs env) s (fun _ t => s.tracee.Leaves K t.tracee)
      fun _ t => s.tracee.Leaves K t.tracee :=
  Stack.undoes.post_run_leaves Stack.inWord_of_left hf hs hK

/-- The cleanup of `trace()` returns only after it has detached. -/
theorem Trace.post_cleanup_detached {c : Target} {s : Session R TraceVars TraceNode}
    (hf : s.fault = Fault.none) :
    Post (cleanup c) s (fun _ t => t.tracee.traced = false) fun _ _ => True := by
  by_cases hs : s.tracee.isStopped
  · have hans : ∀ k q, s.answersAt k q := answersAt_of_none hs hf
    rw [← s.put_self]
    simp only [cleanup, post_bind, post_get, post_ite, post_restoreWord, post_ptraceDetach,
      Session.put_answers, Session.put_tick, Session.put_setMem, Session.put_vars, hans]
    simp
  · have hno : ∀ q, ¬ s.answers q := not_answers_of_not_stopped hs
    simp only [cleanup, post_bind, post_get, post_ite, post_restoreWord]
    simp [hno]

/-- `trace()` leaves the process alone or attached, and alone if it returns. -/
theorem post_trace_leaves {s : Session R TraceVars TraceNode} (hf : env.FaultFree)
    (hs : s.tracee.Free) (hK : env.Spares K) :
    Post (trace A impl funcName count timeoutMs env) s (fun _ t => s.tracee.LeftAlone K t.tracee)
      fun _ t => s.tracee.Leaves K t.tracee := by
  have hleaves : Post (trace A impl funcName count timeoutMs env) s
      (fun _ t => s.tracee.Leaves K t.tracee) fun _ t => s.tracee.Leaves K t.tracee :=
    Trace.undoes.post_run_leaves Trace.inWord_of_left hf hs hK
  cases hrun : trace A impl funcName count timeoutMs env s with
  | error e t =>
    rw [Post, hrun]
    exact hleaves.error hrun
  | ok nodes t =>
    rw [Post, hrun]
    refine (hleaves.ok hrun).resolve_left fun htraced => ?_
    obtain ⟨c, deadline, s₁, s₂, e, s₃, -, -, -, hfinish⟩ := Command.run_eq_ok hrun
    have hdetached : Post ((traceCommand A).finish c env) s₃
        (fun _ t => t.tracee.traced = false) fun _ _ => True := by
      simp only [Command.finish, post_bind, post_modify, post_get, post_pure]
      exact Trace.post_cleanup_detached hf.cleanup
    have hfree := hdetached.ok hfinish
    rw [htraced] at hfree
    cases hfree

/-! ## `watch_checked()` -/

namespace WatchChecked

variable {maxEvents : ℤ} {regex : RegexEngine} {w : World R} {targets : List FuncInfo}
  {traces : ℕ → Script R}

/-- The fallback leaves the process alone or attached: it goes on to another target only after a
`trace()` that has returned. -/
theorem post_ptraceWatch_leaves (hf : ∀ i, (traces i).FaultFree) (hs : w.session.tracee.Free)
    (hK : ∀ i, (traces i).Spares K) :
    Post (ptraceWatch A impl maxEvents timeoutMs targets traces) w
      (fun _ u => w.session.tracee.Leaves K u.session.tracee)
      fun _ u => w.session.tracee.Leaves K u.session.tracee := by
  induction targets generalizing w traces with
  | nil => exact .inr (.refl hs)
  | cons fi targets ih =>
    have htrace : Post (trace A impl fi.name maxEvents timeoutMs (traces 0)) w.session _ _ :=
      post_trace_leaves (hf 0) hs (hK 0)
    refine post_ptraceWatch_cons.2 ⟨fun nodes t hok => ?_, fun e t herror => ?_⟩
    · have halone := htrace.ok hok
      exact (ih (w := traced A impl fi.name maxEvents timeoutMs (traces 0) t w)
        (fun i => hf (i + 1)) halone.free fun i => hK (i + 1)).mono
        (fun _ _ h => halone.trans_leaves h) fun _ _ h => halone.trans_leaves h
    · exact htrace.error herror

/-- Where `PTRACE_ATTACH` fails, the fallback does nothing. -/
theorem post_ptraceWatch_refused {text : Text} (h : ∀ i, (traces i).attachError = some text) :
    Post (ptraceWatch A impl maxEvents timeoutMs targets traces) w
      (fun _ u => u.session.tracee = w.session.tracee)
      fun _ u => u.session.tracee = w.session.tracee := by
  cases targets with
  | nil => rfl
  | cons fi targets =>
    have htrace : Post (trace A impl fi.name maxEvents timeoutMs (traces 0)) w.session _ _ :=
      Command.post_run_refused (h 0)
    exact post_ptraceWatch_cons.2 ⟨fun _ _ hok => (htrace.ok hok).elim,
      fun _ _ herror => htrace.error herror⟩

/-- Of `watch_checked` only the fallback does something to the process. -/
theorem post_watchChecked_of_fallback {env : WatchScript R}
    {S : Session R TraceVars TraceNode → Prop} (hstay : S w.session)
    (hfallback : ∀ targets v, v.session = w.session →
      Post (ptraceWatch A impl maxEvents timeoutMs targets env.traces) v
        (fun _ u => S u.session) fun _ u => S u.session) :
    Post (watchChecked A impl regex funcName maxEvents timeoutMs env) w
      (fun _ u => S u.session) fun _ u => S u.session := by
  have hclear : (w.act .clearFlag).session = w.session := rfl
  rw [watchChecked, post_bind, post_modify]
  cases impl.targets regex funcName with
  | error e => exact hstay
  | ok targets =>
    simp only [post_bind, post_pure, watchTargets, post_ite, post_throw]
    refine ⟨fun _ => hfallback targets _ hclear, fun _ => ⟨fun _ => hstay, fun _ => ?_⟩⟩
    rw [post_tryCatch]
    refine session_ebpfWatch.mono (fun _ u hu => ?_) fun _ u hu => ?_
    · rw [hu, hclear]
      exact hstay
    · exact hfallback targets u (hu.trans hclear)

theorem post_watchChecked_leaves {env : WatchScript R} (hf : ∀ i, (env.traces i).FaultFree)
    (hs : w.session.tracee.Free) (hK : ∀ i, (env.traces i).Spares K) :
    Post (watchChecked A impl regex funcName maxEvents timeoutMs env) w
      (fun _ u => w.session.tracee.Leaves K u.session.tracee)
      fun _ u => w.session.tracee.Leaves K u.session.tracee :=
  post_watchChecked_of_fallback (S := fun s => w.session.tracee.Leaves K s.tracee)
    (.inr (.refl hs)) fun targets v hv => by
      rw [← hv] at hs ⊢
      exact post_ptraceWatch_leaves hf hs hK

theorem post_watchChecked_refused {env : WatchScript R} {text : Text}
    (h : ∀ i, (env.traces i).attachError = some text) :
    Post (watchChecked A impl regex funcName maxEvents timeoutMs env) w
      (fun _ u => u.session.tracee = w.session.tracee)
      fun _ u => u.session.tracee = w.session.tracee :=
  post_watchChecked_of_fallback (S := fun s => s.tracee = w.session.tracee) rfl
    fun targets v hv => by
      rw [← hv]
      exact post_ptraceWatch_refused h

end WatchChecked

end Uatu
