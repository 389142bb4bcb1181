import Uatu.Engine.WatchChecked

/-!
# What escapes from `watch_checked`

`watch_checked` reports what goes wrong while the targets are looked up, and falls back to `trace`
where the eBPF path throws. The buffer for the events is reserved before that, and nothing catches
what the fallback throws: `watchChecked_returns_iff` says exactly when an exception escapes.
-/

namespace Uatu

open Throwing

variable {R : Type}

/-! ## The eBPF path -/

/-- The system lets the two probes of a function be attached. -/
def UprobeSystem.Allows (sys : UprobeSystem) (pid : ℤ) (funcAddress : Addr) : Prop :=
  ∃ path, sys.exe = some path ∧ path ≠ [] ∧
    sys.findProgram "uprobe_entry".toList = true ∧ sys.findProgram "uprobe_exit".toList = true ∧
    sys.attachUprobe ⟨false, pid, path.take 511, funcAddress⟩ = true ∧
    sys.attachUprobe ⟨true, pid, path.take 511, funcAddress⟩ = true

namespace UprobeLoader

variable {sys : UprobeSystem} {loader : UprobeLoader}

theorem pid_attach {funcAddress : Addr} :
    Post (attach sys funcAddress) loader (fun _ l => l.pid = loader.pid)
      fun _ l => l.pid = loader.pid := by
  refine post_attach_keeps rfl fun call text l _ hl => ?_
  rw [post_attachUprobe_iff]
  exact ⟨fun _ => hl, fun _ => hl⟩

theorem post_attachUprobe_ok {call : UprobeCall} {text : Text} {Q : Unit → UprobeLoader → Prop} :
    Post (attachUprobe sys call text) loader Q (fun _ _ => False) ↔
      sys.attachUprobe call = true ∧ Q () (loader.linked call) := by
  rw [post_attachUprobe_iff, imp_false, not_not]
  constructor
  · rintro ⟨h, hcall⟩
    exact ⟨hcall, h hcall⟩
  · rintro ⟨hcall, h⟩
    exact ⟨fun _ => h, hcall⟩

/-- **`attach` returns** exactly if nothing is missing that it needs. -/
theorem returns_attach {funcAddress : Addr} :
    Returns (attach sys funcAddress) loader ↔ sys.Allows loader.pid funcAddress := by
  rw [returns_iff_post, attach, exePath, UprobeSystem.Allows, post_bind]
  cases sys.exe with
  | none =>
    refine ⟨False.elim, ?_⟩
    rintro ⟨path, h, -⟩
    cases h
  | some path =>
    simp only [post_ite, post_bind, post_throw, post_pure, post_get, post_attachUprobe_ok,
      imp_false, not_not, and_true]
    constructor
    · rintro ⟨hpath, hattach⟩
      obtain ⟨hlinks, hentry, hexit⟩ := hattach hpath
      exact ⟨path, rfl, hpath, hentry, hexit, hlinks ⟨hentry, hexit⟩⟩
    · rintro ⟨_, heq, hpath, hentry, hexit, hlinks⟩
      cases heq
      exact ⟨hpath, fun _ => ⟨fun _ => hlinks, hentry, hexit⟩⟩

end UprobeLoader

namespace WatchChecked

variable {w : World R} {env : WatchScript R}

theorem returns_attach {sys : UprobeSystem} {funcAddress : Addr} :
    Returns (attach sys funcAddress) w ↔ sys.Allows w.loader.pid funcAddress := by
  rw [← UprobeLoader.returns_attach]
  unfold Returns attach
  cases UprobeLoader.attach sys funcAddress w.loader with
  | ok _ l => exact ⟨fun _ => ⟨_, _, rfl⟩, fun _ => ⟨_, _, rfl⟩⟩
  | error e l =>
    constructor
    · rintro ⟨_, _, h⟩
      cases h
    · rintro ⟨_, _, h⟩
      cases h

/-- What the eBPF path leaves alone while it attaches and polls. -/
structure Framed (w w' : World R) : Prop where
  session : w'.session = w.session
  pid : w'.loader.pid = w.loader.pid
  ring : w.ring = true → w'.ring = true

theorem Framed.refl : Framed w w := ⟨rfl, rfl, id⟩

theorem Framed.trans {w₁ w₂ w₃ : World R} (h : Framed w₁ w₂) (h' : Framed w₂ w₃) : Framed w₁ w₃ :=
  ⟨h'.session.trans h.session, h'.pid.trans h.pid, h'.ring ∘ h.ring⟩

theorem framed_attach {sys : UprobeSystem} {funcAddress : Addr} :
    Post (attach sys funcAddress) w (fun _ w' => Framed w w' ∧ w'.ring = w.ring)
      fun _ w' => Framed w w' := by
  have hpid : Post (UprobeLoader.attach sys funcAddress) w.loader (fun _ l => l.pid = w.loader.pid)
      fun _ l => l.pid = w.loader.pid := UprobeLoader.pid_attach
  unfold Post at hpid ⊢
  simp only [attach]
  split at hpid
  next hrun => rw [hrun]; exact ⟨⟨rfl, hpid, id⟩, rfl⟩
  next hrun => rw [hrun]; exact ⟨rfl, hpid, id⟩

theorem framed_attachAll {sys : ℕ → UprobeSystem} {targets : List FuncInfo} :
    Post (attachAll sys targets) w (fun _ w' => Framed w w' ∧ w'.ring = w.ring)
      fun _ w' => Framed w w' := by
  induction targets generalizing w sys with
  | nil => exact ⟨.refl, rfl⟩
  | cons fi targets ih =>
    rw [attachAll, post_bind]
    refine framed_attach.mono (fun _ t h => ?_) fun _ _ h => h
    exact ih.mono (fun _ _ h' => ⟨h.1.trans h'.1, h'.2.trans h.2⟩) fun _ _ h' => h.1.trans h'

/-- The probes of all targets can be attached. -/
def AllowsAll (sys : ℕ → UprobeSystem) (pid : ℤ) (targets : List FuncInfo) : Prop :=
  ∀ i fi, targets[i]? = some fi → (sys i).Allows pid fi.address

theorem returns_attachAll {sys : ℕ → UprobeSystem} {targets : List FuncInfo} :
    Returns (attachAll sys targets) w ↔ AllowsAll sys w.loader.pid targets := by
  induction targets generalizing w sys with
  | nil => exact ⟨fun _ i fi h => by simp at h, fun _ => ⟨_, _, rfl⟩⟩
  | cons fi targets ih =>
    have hcons : AllowsAll sys w.loader.pid (fi :: targets) ↔
        (sys 0).Allows w.loader.pid fi.address ∧
          AllowsAll (fun i => sys (i + 1)) w.loader.pid targets := by
      constructor
      · exact fun h => ⟨h 0 fi rfl, fun i fi' hi => h (i + 1) fi' hi⟩
      · rintro ⟨h, htail⟩ (_ | i) fi' hi
        · cases hi
          exact h
        · exact htail i fi' hi
    rw [attachAll, hcons, ← returns_attach]
    by_cases h : Returns (attach (sys 0) fi.address) w
    · obtain ⟨⟨⟩, t, hok⟩ := h
      rw [returns_bind_of_ok hok, ih, (framed_attach.ok hok).1.pid]
      exact ⟨fun ht => ⟨returns_of_ok hok, ht⟩, fun ht => ht.2⟩
    · exact ⟨fun ht => absurd ht (not_returns_bind h), fun ht => absurd ht.1 h⟩

/-! ## The polls -/

variable {watch : Watch} {deadline : ℤ} {polls : List Watch.Poll} {s : WatchState}

/-- The ring buffer can be created. -/
def AllowsRing (env : WatchScript R) : Prop := env.findMap = true ∧ env.newRing = true

/-- A poll returns if there is a ring buffer or one can be created; from then on there is one. -/
theorem post_poll_ok {Q : Unit → World R → Prop} (h : w.ring = true ∨ AllowsRing env)
    (hQ : ∀ t : World R, t.ring = true → Q () t) : Post (poll env) w Q fun _ _ => False := by
  simp only [poll, post_bind, post_modify, post_get, post_ite, post_pure, post_throw]
  refine ⟨fun hring => hQ _ hring, fun hring => ?_⟩
  obtain ⟨hmap, hnew⟩ := h.resolve_left hring
  rw [hmap, hnew]
  have htrue : true ≠ false := Bool.false_ne_true.symm
  exact ⟨htrue, fun _ => ⟨htrue, fun _ => hQ _ rfl⟩⟩

/-- Where the ring buffer is no trouble, the loop of polls returns. -/
theorem post_pollLoop_ok (h : w.ring = true ∨ AllowsRing env) :
    Post (pollLoop env watch deadline polls s) w (fun _ _ => True) fun _ _ => False := by
  induction polls generalizing w s with
  | nil => trivial
  | cons p polls ih =>
    simp only [pollLoop, post_bind, post_modify, post_ite, post_pure]
    refine ⟨fun _ => trivial, fun _ => ⟨fun _ => trivial, fun _ => ⟨fun _ => trivial, fun _ => ?_⟩⟩⟩
    exact post_poll_ok h fun t hring => ih (.inl hring)

/-- The loop comes to its first poll. -/
def Polls (watch : Watch) (deadline : ℤ) : List Watch.Poll → Prop
  | [] => False
  | p :: _ => 0 < watch.maxEvents ∧ p.stopFlag = false ∧ p.now < deadline

/-- **The loop of polls returns** exactly if the ring buffer can be created or is not needed. -/
theorem returns_pollLoop (hring : w.ring = false) :
    Returns (pollLoop env watch deadline polls Watch.start) w ↔
      (Polls watch deadline polls → AllowsRing env) := by
  by_cases hallows : AllowsRing env
  · exact ⟨fun _ _ => hallows, fun _ =>
      returns_iff_post.2 (post_pollLoop_ok (.inr hallows))⟩
  cases polls with
  | nil => exact ⟨fun _ hpolls => absurd hpolls not_false, fun _ => ⟨_, _, rfl⟩⟩
  | cons p polls =>
    have hpoll : ∀ {t : World R} {Q : Unit → World R → Prop}, t.ring = false →
        ¬ Post (poll env) t Q fun _ _ => False := by
      intro t Q ht
      simp only [poll, post_bind, post_modify, post_get, post_ite, post_pure, post_throw]
      rintro ⟨-, h⟩
      obtain ⟨hmap, hnew⟩ := h (by rw [World.act, ht]; exact Bool.false_ne_true)
      obtain ⟨hnew, -⟩ := hnew hmap
      exact hallows ⟨by simpa using hmap, by simpa using hnew⟩
    have hloop : Returns (pollLoop env watch deadline (p :: polls) Watch.start) w ↔
        ¬ (0 < watch.maxEvents ∧ p.stopFlag = false ∧ p.now < deadline) := by
      rw [returns_iff_post]
      simp only [pollLoop, post_bind, post_modify, post_ite, post_pure]
      constructor
      · rintro ⟨-, h⟩ ⟨hmax, hstop, hnow⟩
        exact @hpoll (w.act _) _ hring
          (((h (not_not.2 hmax)).2 (by simp [hstop])).2 (not_le.2 hnow))
      · intro h
        refine ⟨fun _ => trivial, fun hmax => ⟨fun _ => trivial, fun hstop =>
          ⟨fun _ => trivial, fun hnow => absurd ⟨not_not.1 hmax, ?_, not_le.1 hnow⟩ h⟩⟩⟩
        simpa using hstop
    rw [hloop, Polls]
    exact ⟨fun h hpolls => absurd hpolls h, fun h hpolls => hallows (h hpolls)⟩

/-! ## The eBPF path as a whole -/

variable {timeoutMs : ℤ}

theorem returns_openLoader :
    Returns (openLoader env) w ↔ env.openObject = true ∧ env.loadObject = true := by
  rw [returns_iff_post]
  simp only [openLoader, post_bind, post_modify, post_ite, post_pure, post_throw]
  simp only [implies_true, true_and, imp_false, not_not]
  exact ⟨fun h => ⟨h.2, h.1 h.2⟩, fun h => ⟨fun _ => h.2, h.1⟩⟩

theorem framed_openLoader : Post (openLoader env) w
    (fun _ t => t.session = w.session ∧ t.loader.pid = w.loader.pid ∧ t.ring = false)
    fun _ t => t.session = w.session := by
  simp only [openLoader, post_bind, post_modify, post_ite, post_pure, post_throw]
  exact ⟨fun _ => ⟨fun _ => ⟨rfl, rfl, rfl⟩, fun _ => rfl⟩, fun _ => trivial⟩

theorem framed_closeLoader {E : Exception → World R → Prop} :
    Post closeLoader w (fun _ t => t.session = w.session) E := by
  simp only [closeLoader, detachAll, post_bind, post_modify, post_get, post_ite, post_pure]
  exact ⟨fun _ => ⟨fun _ => rfl, fun _ => rfl⟩, fun _ => ⟨fun _ => rfl, fun _ => rfl⟩⟩

theorem session_poll : Post (poll env) w (fun _ t => t.session = w.session)
    fun _ t => t.session = w.session := by
  simp only [poll, post_bind, post_modify, post_get, post_ite, post_pure, post_throw]
  exact ⟨fun _ => rfl, fun _ => ⟨fun _ => rfl, fun _ => ⟨fun _ => rfl, fun _ => rfl⟩⟩⟩

theorem session_pollLoop : Post (pollLoop env watch deadline polls s) w
    (fun _ t => t.session = w.session) fun _ t => t.session = w.session := by
  induction polls generalizing w s with
  | nil => rfl
  | cons p polls ih =>
    simp only [pollLoop, post_bind, post_modify, post_ite, post_pure]
    refine ⟨fun _ => trivial, fun _ => ⟨fun _ => rfl, fun _ => ⟨fun _ => rfl, fun _ => ?_⟩⟩⟩
    refine session_poll.mono (fun _ t ht => ?_) fun _ t ht => ht
    exact ih.mono (fun _ u hu => hu.trans ht) fun _ u hu => hu.trans ht

theorem session_withLoader : Post (withLoader env watch timeoutMs) w
    (fun _ t => t.session = w.session) fun _ t => t.session = w.session := by
  rw [withLoader, post_bind]
  refine framed_attachAll.mono (fun _ t ht => ?_) fun _ t ht => ht.session
  rw [post_bind]
  exact session_pollLoop.mono (fun _ u hu => hu.trans ht.1.session)
    fun _ u hu => hu.trans ht.1.session

/-- The eBPF path does not touch the tracee. -/
theorem session_ebpfWatch : Post (ebpfWatch env watch timeoutMs) w
    (fun _ t => t.session = w.session) fun _ t => t.session = w.session := by
  rw [post_ebpfWatch_stages]
  refine framed_openLoader.mono (fun _ t ht => ?_) fun _ t ht => ht
  refine session_withLoader.mono (fun _ u hu => ?_) fun _ u hu => ?_
  · exact framed_closeLoader.mono (fun _ v hv => hv.trans (hu.trans ht.1)) fun _ _ h => h
  · exact framed_closeLoader.mono (fun _ v hv => hv.trans (hu.trans ht.1)) fun _ _ h => h

/-- Nothing goes wrong on the eBPF path. -/
structure EbpfCompletes (env : WatchScript R) (watch : Watch) (timeoutMs pid : ℤ) : Prop where
  opened : env.openObject = true
  loaded : env.loadObject = true
  attached : AllowsAll env.sys pid watch.targets
  ring : Polls watch (env.start + timeoutMs * 1000000) env.polls → AllowsRing env

theorem returns_closeLoader : Returns closeLoader w :=
  returns_iff_post.2 (framed_closeLoader.mono (fun _ _ _ => trivial) fun _ _ h => h)

theorem returns_withLoader (hring : w.ring = false) :
    Returns (withLoader env watch timeoutMs) w ↔ AllowsAll env.sys w.loader.pid watch.targets ∧
      (Polls watch (env.start + timeoutMs * 1000000) env.polls → AllowsRing env) := by
  rw [withLoader, ← returns_attachAll]
  by_cases h : Returns (attachAll env.sys watch.targets) w
  · obtain ⟨⟨⟩, t, hok⟩ := h
    have ht : t.ring = false := (framed_attachAll.ok hok).2.trans hring
    have hrest : ∀ (s : WatchState) (u : World R),
        Returns (do detachAll; return s.events : Watching R (List WatchEvent)) u :=
      fun s u => ⟨_, _, rfl⟩
    rw [returns_bind_of_ok hok, returns_bind_of_forall hrest, returns_pollLoop ht]
    exact ⟨fun hpolls => ⟨returns_of_ok hok, hpolls⟩, fun hpolls => hpolls.2⟩
  · exact ⟨fun ht => absurd ht (not_returns_bind h), fun ht => absurd ht.1 h⟩

/-- **The eBPF path returns** exactly if nothing goes wrong. -/
theorem returns_ebpfWatch :
    Returns (ebpfWatch env watch timeoutMs) w ↔ EbpfCompletes env watch timeoutMs w.loader.pid := by
  have hclose : ∀ (evs : List WatchEvent) (u : World R),
      Returns (do closeLoader; return evs : Watching R (List WatchEvent)) u := fun evs u =>
    (returns_bind_of_forall fun _ _ => ⟨_, _, rfl⟩).2 returns_closeLoader
  have hrethrow : ∀ e (u : World R),
      ¬ Returns (do closeLoader; throw e : Watching R (List WatchEvent)) u := by
    intro e u h
    obtain ⟨⟨⟩, t, hok⟩ := returns_closeLoader (w := u)
    rw [returns_bind_of_ok hok] at h
    exact not_returns_of_error rfl h
  rw [ebpfWatch]
  by_cases h : Returns (openLoader env) w
  · obtain ⟨⟨⟩, t, hok⟩ := h
    obtain ⟨-, hpid, hring⟩ := framed_openLoader.ok hok
    obtain ⟨hopen, hload⟩ := returns_openLoader.1 (returns_of_ok hok)
    rw [returns_bind_of_ok hok, returns_bind_of_forall hclose, returns_tryCatch,
      returns_withLoader hring, hpid]
    constructor
    · rintro (⟨hattach, hpolls⟩ | ⟨e, u, -, hthrow⟩)
      · exact ⟨hopen, hload, hattach, hpolls⟩
      · exact absurd hthrow (hrethrow e u)
    · exact fun h => .inl ⟨h.attached, h.ring⟩
  · exact ⟨fun ht => absurd ht (not_returns_bind h),
      fun ht => absurd (returns_openLoader.2 ⟨ht.opened, ht.loaded⟩) h⟩

/-! ## The fallback -/

/-- `trace()` returns for each target in turn. -/
def TracesReturn (A : Arch R) (impl : Impl) (maxEvents timeoutMs : ℤ) :
    List FuncInfo → (ℕ → Script R) → Session R TraceVars TraceNode → Prop
  | [], _, _ => True
  | fi :: targets, traces, s =>
    ∃ nodes t, trace A impl fi.name maxEvents timeoutMs (traces 0) s = .ok nodes t ∧
      TracesReturn A impl maxEvents timeoutMs targets (fun i => traces (i + 1)) t

variable {A : Arch R} {impl : Impl} {maxEvents : ℤ}

theorem returns_ptraceWatch {targets : List FuncInfo} {traces : ℕ → Script R} :
    Returns (ptraceWatch A impl maxEvents timeoutMs targets traces) w ↔
      TracesReturn A impl maxEvents timeoutMs targets traces w.session := by
  induction targets generalizing w traces with
  | nil => exact ⟨fun _ => trivial, fun _ => ⟨_, _, rfl⟩⟩
  | cons fi targets ih =>
    rw [ptraceWatch, TracesReturn]
    cases htrace : trace A impl fi.name maxEvents timeoutMs (traces 0) w.session with
    | error e t =>
      constructor
      · exact fun h => absurd h (not_returns_bind (not_returns_of_error (traceIn_error htrace)))
      · rintro ⟨_, _, hok, -⟩
        cases hok
    | ok nodes t =>
      rw [returns_bind_of_ok (traceIn_ok htrace), returns_bind_pure, ih]
      constructor
      · exact fun h => ⟨nodes, _, rfl, h⟩
      · rintro ⟨_, _, hok, h⟩
        cases hok
        exact h

/-- No target can be traced for a negative number of events. -/
theorem TracesReturn.maxEvents_nonneg {targets : List FuncInfo} {traces : ℕ → Script R}
    {s : Session R TraceVars TraceNode}
    (h : TracesReturn A impl maxEvents timeoutMs targets traces s) (hne : targets ≠ []) :
    0 ≤ maxEvents := by
  cases targets with
  | nil => exact absurd rfl hne
  | cons fi targets =>
    obtain ⟨nodes, t, hok, -⟩ := h
    obtain ⟨c, deadline, u, -, -, -, hprep, -⟩ := Command.run_eq_ok hok
    exact (Command.count_of_prepare.ok hprep).2

end WatchChecked

open WatchChecked

theorem Impl.targets_ne_nil {impl : Impl} {regex : RegexEngine} {funcName : Text}
    {targets : List FuncInfo} (h : impl.targets regex funcName = .ok targets) : targets ≠ [] := by
  unfold Impl.targets at h
  split at h
  · cases h
  · simp only at h
    split_ifs at h with hnil
    cases h
    exact hnil

/-- **No exception escapes from `watch_checked`** exactly if there are no targets, or the number of
events is not negative and the eBPF path completes or each target can be traced. -/
theorem watchChecked_returns_iff {A : Arch R} {impl : Impl} {regex : RegexEngine} {funcName : Text}
    {maxEvents timeoutMs : ℤ} {env : WatchScript R} {pid : ℤ}
    {session : Session R TraceVars TraceNode} :
    Returns (watchChecked A impl regex funcName maxEvents timeoutMs env) (World.init pid session) ↔
      ∀ targets, impl.targets regex funcName = .ok targets → 0 ≤ maxEvents ∧
        (env.access = true ∧
            EbpfCompletes env ⟨targets, impl.getAslrSlide, maxEvents⟩ timeoutMs pid ∨
          TracesReturn A impl maxEvents timeoutMs targets env.traces session) := by
  rw [watchChecked, returns_bind_modify]
  cases htargets : impl.targets regex funcName with
  | error e => exact ⟨fun _ _ h => (nomatch h), fun _ => returns_pure _ _⟩
  | ok targets =>
    have hnonneg : TracesReturn A impl maxEvents timeoutMs targets env.traces session →
        0 ≤ maxEvents := fun h => h.maxEvents_nonneg (Impl.targets_ne_nil htargets)
    simp only [Except.ok.injEq, forall_eq']
    rw [returns_bind_pure, watchTargets]
    split_ifs with haccess hmax
    · rw [returns_ptraceWatch]
      exact ⟨fun h => ⟨hnonneg h, .inr h⟩, fun h => h.2.resolve_left fun h => by simp_all⟩
    · exact ⟨fun h => absurd h not_returns_throw, fun h => absurd h.1 (not_le.2 hmax)⟩
    · have haccess : env.access = true := by simpa using haccess
      rw [returns_tryCatch, returns_ebpfWatch]
      constructor
      · rintro (h | ⟨e, t, hebpf, h⟩)
        · exact ⟨not_lt.1 hmax, .inl ⟨haccess, h⟩⟩
        · rw [returns_ptraceWatch, session_ebpfWatch.error hebpf] at h
          exact ⟨not_lt.1 hmax, .inr h⟩
      · rintro ⟨-, ⟨-, h⟩ | h⟩
        · exact .inl h
        · by_cases hebpf :
            EbpfCompletes env ⟨targets, impl.getAslrSlide, maxEvents⟩ timeoutMs pid
          · exact .inl hebpf
          · have hthrows : ¬ Returns
                (ebpfWatch env ⟨targets, impl.getAslrSlide, maxEvents⟩ timeoutMs)
                ((World.init pid session).act .clearFlag) := by
              rw [returns_ebpfWatch]
              exact hebpf
            obtain ⟨e, t, hebpf⟩ := error_of_not_returns hthrows
            refine .inr ⟨e, t, hebpf, ?_⟩
            rw [returns_ptraceWatch, session_ebpfWatch.error hebpf]
            exact h

/-! ## A process that cannot be attached to -/

/-- No name matches. -/
def RegexEngine.none : RegexEngine := fun _ => .ok fun _ => .ok false

/-- The BPF object is there or not, but cannot be opened. -/
def WatchScript.noEbpf (access : Bool) (traces : ℕ → Script R) : WatchScript R where
  access
  openObject := false
  loadObject := false
  sys _ := ⟨.none, fun _ => false, fun _ => false⟩
  start := 0
  findMap := false
  newRing := false
  polls := []
  traces

/-- `PTRACE_ATTACH` fails. -/
def Script.refused : Script R :=
  { Script.sampling [] with attachError := some "Operation not permitted".toList }

/-- Without a BPF object, an exception escapes if the process cannot be attached to; with one, it
does if a negative number of events is asked for. -/
theorem watchChecked_throws :
    ¬ Returns (watchChecked x86_64 Impl.single .none "f".toList 1 1000
      (.noEbpf false fun _ => .refused)) (World.init 1 (Session.single default)) ∧
    ¬ Returns (watchChecked x86_64 Impl.single .none "f".toList (-1) 1000
      (.noEbpf true fun _ => .sampling [])) (World.init 1 (Session.single default)) :=
  ⟨not_returns_of_error rfl, not_returns_of_error rfl⟩

end Uatu
