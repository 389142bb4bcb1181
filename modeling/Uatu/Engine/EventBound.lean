import Uatu.Dwarf.Lookup
import Uatu.Engine.Escapes
import Uatu.Engine.Samples

/-!
# How many events `watch_checked` returns

The eBPF path stops at `max_events`: the loop of polls tests the number of events, and so does the
callback at each record of a batch. The fallback traces each target for `max_events` samples and
returns them all, so with two targets it can return twice as many (`watch_bounded_iff`).
-/

namespace Uatu

open Throwing

variable {R : Type}

/-! ## The eBPF path -/

namespace Watch

variable {w : Watch} {s : WatchState}

/-- A record that comes when there are `max_events` events is dropped. -/
theorem length_callback (hs : (s.events.length : ℤ) ≤ w.maxEvents) (d : Delivery) :
    ((w.callback s d).events.length : ℤ) ≤ w.maxEvents := by
  unfold callback
  split_ifs with hentry hfull
  · split
    · exact hs
    · exact hs
  · exact hs
  · split
    · exact hs
    · rw [List.length_append, List.length_singleton]
      omega

/-- Whatever the size of a batch. -/
theorem length_foldl_callback {records : List Delivery} (hs : (s.events.length : ℤ) ≤ w.maxEvents) :
    ((records.foldl w.callback s).events.length : ℤ) ≤ w.maxEvents := by
  induction records generalizing s with
  | nil => exact hs
  | cons d records ih => exact ih (length_callback hs d)

theorem length_loop {deadline : ℤ} {polls : List Poll} (hs : (s.events.length : ℤ) ≤ w.maxEvents) :
    ((w.loop deadline polls s).events.length : ℤ) ≤ w.maxEvents := by
  induction polls generalizing s with
  | nil => exact hs
  | cons p polls ih =>
    rw [loop]
    split_ifs
    · exact hs
    · exact hs
    · exact ih (length_foldl_callback hs)
    · exact hs

end Watch

namespace WatchChecked

variable {A : Arch R} {impl : Impl} {env : WatchScript R} {w : World R} {watch : Watch}
  {s : WatchState} {deadline maxEvents timeoutMs : ℤ}

/-- When the loop of polls returns, it is `Watch.loop`. -/
theorem value_pollLoop {polls : List Watch.Poll} : Post (pollLoop env watch deadline polls s) w
    (fun s' _ => s' = watch.loop deadline polls s) fun _ _ => True := by
  induction polls generalizing w s with
  | nil => rfl
  | cons p polls ih =>
    rw [Watch.loop]
    simp only [pollLoop, post_bind, post_modify, post_ite, post_pure]
    refine ⟨fun hmax => (if_pos hmax).symm, fun hmax => ?_⟩
    rw [if_neg hmax]
    refine ⟨fun hstop => (if_pos hstop).symm, fun hstop => ?_⟩
    rw [if_neg hstop]
    refine ⟨fun hnow => (if_pos hnow).symm, fun hnow => ?_⟩
    rw [if_neg hnow]
    exact session_poll.mono (fun _ _ _ => ih) fun _ _ _ => trivial

/-- What the eBPF path returns is what the loop makes of the polls. -/
theorem events_ebpfWatch : Post (ebpfWatch env watch timeoutMs) w
    (fun evs _ => evs =
      (watch.loop (env.start + timeoutMs * 1000000) env.polls Watch.start).events)
    fun _ _ => True := by
  have hloader : ∀ t : World R, Post (withLoader env watch timeoutMs) t
      (fun evs _ => evs =
        (watch.loop (env.start + timeoutMs * 1000000) env.polls Watch.start).events)
      fun _ _ => True := by
    intro t
    rw [withLoader, post_bind]
    refine framed_attachAll.mono (fun _ u _ => ?_) fun _ _ _ => trivial
    rw [post_bind]
    exact value_pollLoop.mono (fun _ _ hs => congrArg WatchState.events hs) fun _ _ h => h
  rw [post_ebpfWatch_stages]
  refine framed_openLoader.mono (fun _ t _ => ?_) fun _ _ _ => trivial
  refine (hloader t).mono (fun evs u hevs => ?_) fun e u _ => ?_
  · exact framed_closeLoader.mono (fun _ _ _ => hevs) fun _ _ h => h
  · exact framed_closeLoader.mono (fun _ _ _ => trivial) fun _ _ h => h

/-- **The eBPF path returns at most `max_events` events.** -/
theorem length_ebpfWatch (hmax : 0 ≤ watch.maxEvents) :
    Post (ebpfWatch env watch timeoutMs) w (fun evs _ => (evs.length : ℤ) ≤ watch.maxEvents)
      fun _ _ => True := by
  refine events_ebpfWatch.mono (fun evs _ hevs => ?_) fun _ _ h => h
  rw [hevs]
  exact Watch.length_loop hmax

/-! ## The fallback -/

/-- A traced target has at most `max_events` events. -/
theorem length_ptraceWatch {targets : List FuncInfo} {traces : ℕ → Script R} :
    Post (ptraceWatch A impl maxEvents timeoutMs targets traces) w
      (fun evs _ => (evs.length : ℤ) ≤ targets.length * maxEvents) fun _ _ => True := by
  induction targets generalizing w traces with
  | nil => simp [ptraceWatch]
  | cons fi targets ih =>
    refine post_ptraceWatch_cons.2 ⟨fun nodes t htrace => ?_, fun _ _ _ => trivial⟩
    have hnodes : (nodes.length : ℤ) ≤ maxEvents := Trace.length_le_count htrace
    refine ih.mono (fun evs u hevs => ?_) fun _ _ _ => trivial
    simp only [List.length_append, List.length_map, List.length_cons, Nat.cast_add, Nat.cast_one,
      add_mul, one_mul]
    omega

/-- Without time there are none. -/
theorem nil_ptraceWatch {targets : List FuncInfo} {traces : ℕ → Script R}
    (htimed : ∀ i, (traces i).Timed) (htimeout : timeoutMs ≤ 0) :
    Post (ptraceWatch A impl maxEvents timeoutMs targets traces) w (fun evs _ => evs = [])
      fun _ _ => True := by
  induction targets generalizing w traces with
  | nil => rfl
  | cons fi targets ih =>
    refine post_ptraceWatch_cons.2 ⟨fun nodes t htrace => ?_, fun _ _ _ => trivial⟩
    obtain rfl : nodes = [] := Trace.eq_nil_of_timeout (htimed 0) htimeout htrace
    exact ih fun i => htimed (i + 1)

/-- **Each target can have `max_events` events.** -/
theorem exists_ptraceWatch {targets : List FuncInfo} {finder : SymbolFinder} {sig : Signal}
    (hfinder : impl.finder = .ok finder)
    (hfound : ∀ fi ∈ targets, ∃ info, finder.find fi.name = some info ∧ info.address ≠ 0)
    (hmax : 0 ≤ maxEvents) (htimeout : 0 < timeoutMs)
    (hs : w.session.tracee.status = .running sig) :
    ∃ traces evs t, (∀ i, (traces i : Script R).Timed) ∧
      ptraceWatch A impl maxEvents timeoutMs targets traces w = .ok evs t ∧
      (evs.length : ℤ) = targets.length * maxEvents := by
  induction targets generalizing w sig with
  | nil => exact ⟨fun _ => .sampling [], [], w, fun _ r hr => by simp [Script.sampling] at hr, rfl,
      by simp⟩
  | cons fi targets ih =>
    obtain ⟨info, hfind, haddr⟩ := hfound fi (List.mem_cons_self ..)
    obtain ⟨rounds, nodes, t, hnow, htrace, hlength, hrunning⟩ :=
      Trace.exists_trace_count (A := A) hfinder hfind haddr hmax htimeout hs
    obtain ⟨traces, evs, u, htimed, hrest, hevs⟩ :=
      ih (w := traced A impl fi.name maxEvents timeoutMs (.sampling rounds) t w)
        (fun fi hfi => hfound fi (List.mem_cons_of_mem _ hfi)) hrunning
    refine ⟨fun i => Nat.rec (.sampling rounds) (fun i _ => traces i) i,
      nodes.map (ptraceEvent fi) ++ evs, u, ?_, ?_, ?_⟩
    · rintro (_ | i)
      · exact fun r hr => (hnow r hr).ge
      · exact htimed i
    · rw [ptraceWatch]
      exact (bind_ok (traceIn_ok htrace)).trans ((bind_ok hrest).trans rfl)
    · simp only [List.length_append, List.length_map, List.length_cons, Nat.cast_add, Nat.cast_one,
        add_mul, one_mul, hlength, hevs]
      omega

end WatchChecked

/-! ## The targets -/

theorem mem_of_regexSearch {re : Text → Except Text Bool} {infos found : List FuncInfo}
    (h : regexSearch re infos = .ok found) : ∀ fi ∈ found, fi ∈ infos := by
  induction infos generalizing found with
  | nil =>
    cases h
    exact fun fi hfi => hfi
  | cons info infos ih =>
    rw [regexSearch] at h
    cases hre : re info.name with
    | error e => rw [hre] at h; cases h
    | ok b =>
      cases hrest : regexSearch re infos with
      | error e =>
        rw [hre, hrest] at h
        cases b <;> cases h
      | ok rest =>
        rw [hre, hrest] at h
        cases b with
        | false =>
          cases h
          exact fun fi hfi => List.mem_cons_of_mem _ (ih hrest fi hfi)
        | true =>
          cases h
          intro fi hfi
          obtain rfl | hfi := List.mem_cons.1 hfi
          · exact List.mem_cons_self ..
          · exact List.mem_cons_of_mem _ (ih hrest fi hfi)

/-- What is resolved has been collected. -/
theorem Impl.mem_cache_of_resolve {impl : Impl} {regex : RegexEngine} {funcName : Text}
    {found : List FuncInfo} (h : impl.resolve regex funcName = .ok found) :
    ∃ finder, impl.finder = .ok finder ∧ ∀ fi ∈ found, fi ∈ finder.cache := by
  unfold Impl.resolve at h
  cases hfinder : impl.finder with
  | error e => rw [hfinder] at h; cases h
  | ok finder =>
    refine ⟨finder, rfl, ?_⟩
    rw [hfinder] at h
    simp only [bind, Except.bind] at h
    cases hfind : finder.find funcName with
    | some info =>
      rw [hfind] at h
      cases h
      rw [SymbolFinder.find_eq] at hfind
      simpa using List.mem_of_find?_eq_some hfind
    | none =>
      rw [hfind] at h
      change (regex funcName).bind (regexSearch · finder.cache) = .ok found at h
      cases hregex : regex funcName with
      | error e => rw [hregex] at h; cases h
      | ok re =>
        rw [hregex] at h
        exact mem_of_regexSearch h

/-- The targets are collected functions. -/
theorem Impl.mem_cache_of_targets {impl : Impl} {regex : RegexEngine} {funcName : Text}
    {targets : List FuncInfo} (h : impl.targets regex funcName = .ok targets) :
    ∃ finder, impl.finder = .ok finder ∧ ∀ fi ∈ targets, fi ∈ finder.cache := by
  unfold Impl.targets at h
  cases hresolve : impl.resolve regex funcName with
  | error e => rw [hresolve] at h; cases h
  | ok found =>
    simp only [hresolve] at h
    split_ifs at h
    cases h
    obtain ⟨finder, hfinder, hmem⟩ := Impl.mem_cache_of_resolve hresolve
    exact ⟨finder, hfinder, fun fi hfi => hmem fi (List.mem_of_mem_filter hfi)⟩

/-- A collected function is found by its name, or another one of this name is. -/
theorem SymbolFinder.exists_find {finder : SymbolFinder} {fi : FuncInfo} (h : fi ∈ finder.cache) :
    ∃ info ∈ finder.cache, finder.find fi.name = some info := by
  rw [SymbolFinder.find_eq]
  cases hfind : finder.cache.find? fun info => info.name = fi.name with
  | none => simpa using List.find?_eq_none.1 hfind fi h
  | some info => exact ⟨info, List.mem_of_find?_eq_some hfind, rfl⟩

/-! ## The two paths together -/

namespace WatchChecked

variable {A : Arch R} {impl : Impl} {regex : RegexEngine} {funcName : Text}
  {maxEvents timeoutMs : ℤ} {env : WatchScript R} {targets : List FuncInfo}
  {w w' : World R} {evs : List WatchEvent}

/-- Events are returned for the targets that are resolved. -/
theorem watchChecked_eq_ok : watchChecked A impl regex funcName maxEvents timeoutMs env w =
      .ok (.ok evs) w' ↔ ∃ targets, impl.targets regex funcName = .ok targets ∧
        watchTargets A impl maxEvents timeoutMs env targets (w.act .clearFlag) = .ok evs w' := by
  have hclear : (modify (World.act .clearFlag) : Watching R PUnit) w = .ok ⟨⟩ (w.act .clearFlag) :=
    rfl
  rw [watchChecked, bind_ok hclear]
  cases impl.targets regex funcName with
  | error e =>
    constructor
    · intro h
      cases h
    · rintro ⟨targets, h, -⟩
      cases h
  | ok targets =>
    simp only [Except.ok.injEq, exists_eq_left']
    constructor
    · intro h
      obtain ⟨evs', u, hok, hpure⟩ := bind_eq_ok h
      cases hpure
      exact hok
    · intro h
      rw [bind_ok h]
      rfl

/-- The events are those of the eBPF path if it is there and completes, and else those of the
fallback, on the same tracee. -/
theorem watchTargets_eq_ok
    (h : watchTargets A impl maxEvents timeoutMs env targets w = .ok evs w') :
    (env.access = true ∧ 0 ≤ maxEvents ∧
      ebpfWatch env ⟨targets, impl.getAslrSlide, maxEvents⟩ timeoutMs w = .ok evs w') ∨
    (¬ (env.access = true ∧
        EbpfCompletes env ⟨targets, impl.getAslrSlide, maxEvents⟩ timeoutMs w.loader.pid) ∧
      ∃ t, t.session = w.session ∧
        ptraceWatch A impl maxEvents timeoutMs targets env.traces t = .ok evs w') := by
  rw [watchTargets] at h
  split_ifs at h with haccess hmax
  · exact .inr ⟨fun h => by simp [haccess] at h, w, rfl, h⟩
  · cases h
  · cases hebpf : ebpfWatch env ⟨targets, impl.getAslrSlide, maxEvents⟩ timeoutMs w with
    | ok evs' t =>
      simp only [tryCatch, tryCatchThe, MonadExceptOf.tryCatch, EStateM.tryCatch, hebpf] at h
      exact .inl ⟨by simpa using haccess, not_lt.1 hmax, h⟩
    | error e t =>
      simp only [tryCatch, tryCatchThe, MonadExceptOf.tryCatch, EStateM.tryCatch, hebpf] at h
      refine .inr ⟨fun hc => not_returns_of_error hebpf (returns_ebpfWatch.2 hc.2), t,
        session_ebpfWatch.error hebpf, h⟩

/-- The eBPF path makes no use of the scripts for the fallback. -/
theorem ebpfWatch_traces (env : WatchScript R) (watch : Watch) (traces : ℕ → Script R) :
    ebpfWatch { env with traces } watch timeoutMs = ebpfWatch env watch timeoutMs := by
  have hloop : ∀ deadline polls s, pollLoop { env with traces } watch deadline polls s =
      pollLoop env watch deadline polls s := by
    intro deadline polls s
    induction polls generalizing s with
    | nil => rfl
    | cons p polls ih =>
      rw [pollLoop, pollLoop]
      simp only [ih]
      rfl
  have hloader : withLoader { env with traces } watch timeoutMs =
      withLoader env watch timeoutMs := by
    unfold withLoader
    simp only [hloop]
  rw [ebpfWatch, ebpfWatch, hloader]
  rfl

/-- Where the eBPF path is not there or fails, the fallback runs on the same tracee. -/
theorem exists_fallback (hmax : 0 ≤ maxEvents) (h : ¬ (env.access = true ∧
      EbpfCompletes env ⟨targets, impl.getAslrSlide, maxEvents⟩ timeoutMs w.loader.pid)) :
    ∃ t, t.session = w.session ∧ ∀ traces,
      watchTargets A impl maxEvents timeoutMs { env with traces } targets w =
        ptraceWatch A impl maxEvents timeoutMs targets traces t := by
  by_cases haccess : env.access = true
  · have hthrows : ¬ Returns
        (ebpfWatch env ⟨targets, impl.getAslrSlide, maxEvents⟩ timeoutMs) w := fun hreturns =>
      h ⟨haccess, returns_ebpfWatch.1 hreturns⟩
    obtain ⟨e, t, hebpf⟩ := error_of_not_returns hthrows
    refine ⟨t, session_ebpfWatch.error hebpf, fun traces => ?_⟩
    rw [watchTargets, if_neg (by simpa using haccess), if_neg (not_lt.2 hmax), ebpfWatch_traces]
    simp only [tryCatch, tryCatchThe, MonadExceptOf.tryCatch, EStateM.tryCatch, hebpf]
    rfl
  · refine ⟨w, rfl, fun traces => ?_⟩
    rw [watchTargets, if_pos (by simpa using haccess)]

end WatchChecked

open WatchChecked in
/-- **`watch_checked` returns at most `max_events` events**, whatever the process does, exactly if
the eBPF path completes, or there is one target at most, or nothing can be sampled. -/
theorem watch_bounded_iff {A : Arch R} {impl : Impl} {regex : RegexEngine} {funcName : Text}
    {maxEvents timeoutMs : ℤ} {env : WatchScript R} {pid : ℤ}
    {session : Session R TraceVars TraceNode} {sig : Signal}
    (hcollected : ∀ finder, impl.finder = .ok finder → ∀ fi ∈ finder.cache, fi.address ≠ 0)
    (hs : session.tracee.status = .running sig) :
    (∀ traces : ℕ → Script R, (∀ i, (traces i).Timed) → ∀ evs w,
      watchChecked A impl regex funcName maxEvents timeoutMs { env with traces }
        (World.init pid session) = .ok (.ok evs) w → (evs.length : ℤ) ≤ maxEvents) ↔
    ∀ targets, impl.targets regex funcName = .ok targets →
      env.access = true ∧
          EbpfCompletes env ⟨targets, impl.getAslrSlide, maxEvents⟩ timeoutMs pid ∨
        targets.length ≤ 1 ∨ maxEvents ≤ 0 ∨ timeoutMs ≤ 0 := by
  constructor
  · intro hbound targets htargets
    by_contra hnot
    simp only [not_or, not_le] at hnot
    obtain ⟨hebpf, hmany, hmax, htimeout⟩ := hnot
    obtain ⟨finder, hfinder, hmem⟩ := Impl.mem_cache_of_targets htargets
    have hfound : ∀ fi ∈ targets, ∃ info, finder.find fi.name = some info ∧ info.address ≠ 0 := by
      intro fi hfi
      obtain ⟨info, hinfo, hfind⟩ := SymbolFinder.exists_find (hmem fi hfi)
      exact ⟨info, hfind, hcollected finder hfinder info hinfo⟩
    obtain ⟨t, hsession, hfallback⟩ :=
      exists_fallback (A := A) (w := (World.init pid session).act .clearFlag) hmax.le hebpf
    obtain ⟨traces, evs, u, htimed, hok, hlength⟩ := exists_ptraceWatch (A := A) (w := t) hfinder
      hfound hmax.le htimeout ((congrArg (·.tracee.status) hsession).trans hs)
    have hevs := hbound traces htimed evs u
      (watchChecked_eq_ok.2 ⟨targets, htargets, (hfallback traces).trans hok⟩)
    have htwice : 2 * maxEvents ≤ targets.length * maxEvents :=
      Int.mul_le_mul_of_nonneg_right (by exact_mod_cast hmany) hmax.le
    omega
  · intro hcond traces htimed evs w h
    obtain ⟨targets, htargets, h⟩ := watchChecked_eq_ok.1 h
    have hpos : (1 : ℤ) ≤ targets.length := by
      have := List.length_pos_of_ne_nil (Impl.targets_ne_nil htargets)
      omega
    obtain ⟨-, hmax, hebpf⟩ | ⟨hfails, t, hsession, hptrace⟩ := watchTargets_eq_ok h
    · exact (length_ebpfWatch hmax).ok hebpf
    · have hlength : (evs.length : ℤ) ≤ targets.length * maxEvents := length_ptraceWatch.ok hptrace
      obtain ⟨haccess, hcompletes⟩ | hone | hmax | htimeout := hcond targets htargets
      · exact absurd ⟨haccess, hcompletes.opened, hcompletes.loaded, hcompletes.attached,
          hcompletes.ring⟩ hfails
      · obtain hone : (targets.length : ℤ) = 1 := by omega
        rwa [hone, one_mul] at hlength
      · have hle : (targets.length : ℤ) * maxEvents ≤ 1 * maxEvents :=
          Int.mul_le_mul_of_nonpos_right hpos hmax
        omega
      · obtain rfl : evs = [] := (nil_ptraceWatch htimed htimeout).ok hptrace
        simp only [List.length_nil, Nat.cast_zero] at hlength ⊢
        exact nonneg_of_mul_nonneg_right hlength (by omega)

/-! ## Two functions that match a pattern -/

/-- Every name matches. -/
def RegexEngine.all : RegexEngine := fun _ => .ok fun _ => .ok true

/-- A process with two functions. -/
def Impl.pair : Impl :=
  { Impl.single with
    finder := .ok ⟨[⟨"f".toList, "f".toList, 0x1000, 16, [], "int".toList, false⟩,
      ⟨"g".toList, "g".toList, 0x1010, 16, [], "int".toList, false⟩]⟩ }

/-- A call of the function at this address is sampled. -/
def Script.oneCall (addr : Addr) : Script X86Regs :=
  .sampling [.polling [(0, .change (.trapAt addr))], .polling [(0, .change (.trapAt 0x2000))]]

/-- One event of each function. -/
def WatchScript.twoCalls : WatchScript X86Regs :=
  .noEbpf false fun i => if i = 0 then .oneCall 0x1000 else .oneCall 0x1010

/-- How many events a run of `watch_checked` has returned. -/
def eventCount {R : Type} :
    EStateM.Result Exception (World R) (Except EngineError (List WatchEvent)) → ℕ
  | .ok (.ok evs) _ => evs.length
  | _ => 0

theorem exists_of_eventCount {R : Type} {n : ℕ} (hn : 0 < n)
    {result : EStateM.Result Exception (World R) (Except EngineError (List WatchEvent))}
    (h : eventCount result = n) : ∃ evs w, result = .ok (.ok evs) w ∧ evs.length = n := by
  subst h
  rcases result with ⟨_ | evs, w⟩ | ⟨e, w⟩
  · exact absurd hn (lt_irrefl 0)
  · exact ⟨evs, w, rfl, rfl⟩
  · exact absurd hn (lt_irrefl 0)

theorem exists_twoCalls : ∃ evs w,
    watchChecked x86_64 Impl.pair .all ".*".toList 1 1000 .twoCalls
      (World.init 1 (Session.single default)) = .ok (.ok evs) w ∧ evs.length = 2 :=
  exists_of_eventCount Nat.zero_lt_two (by decide +kernel)

/-- One event is asked for, and two are returned. -/
theorem watch_unbounded : ∃ evs w,
    watchChecked x86_64 Impl.pair .all ".*".toList 1 1000 .twoCalls
      (World.init 1 (Session.single default)) = .ok (.ok evs) w ∧
    ¬ (evs.length : ℤ) ≤ 1 := by
  obtain ⟨evs, w, hrun, htwo⟩ := exists_twoCalls
  exact ⟨evs, w, hrun, by omega⟩

/-- With the name of one of them, whatever is sampled, there is one event at most. -/
theorem watch_bounded_iff_one :
    (∃ fi, Impl.pair.targets .all "g".toList = .ok [fi]) ∧
    ∀ traces : ℕ → Script X86Regs, (∀ i, (traces i).Timed) → ∀ evs w,
      watchChecked x86_64 Impl.pair .all "g".toList 1 1000
        { WatchScript.twoCalls with traces } (World.init 1 (Session.single default)) =
          .ok (.ok evs) w → (evs.length : ℤ) ≤ 1 := by
  refine ⟨⟨_, rfl⟩, ?_⟩
  have hcollected : ∀ finder, Impl.pair.finder = .ok finder →
      ∀ fi ∈ finder.cache, fi.address ≠ 0 := by
    rintro finder ⟨rfl⟩
    decide
  refine (watch_bounded_iff hcollected rfl).2 fun targets htargets => ?_
  cases (show Except.ok _ = Except.ok targets from htargets)
  exact .inr (.inl (by decide))

end Uatu
