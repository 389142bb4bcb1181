import Uatu.Engine.EventBound
import Uatu.Engine.Stack
import Uatu.Foundations.Cancelling

/-!
# Requests to stop

`request_stop()` sets the flag that `watch_checked`, `trace` and `stack` test in their loops. All
three clear it when they start, and `watch_checked` calls `trace` for each target of the fallback,
so a request can be lost: `request_ends_iff` says exactly when a command ends after a request that
comes while it runs. One that comes during a wait of `trace` or `stack` ends it
(`Command.ends_of_wait`).
-/

namespace Uatu

open Cancelling Throwing

variable {R : Type}

/-- What an action is to the stop flag. -/
def Action.kind : Action → Kind
  | .clearFlag => .clear
  | .testFlag stop => .test stop
  | .attach => .go
  | .wait => .go
  | .poll => .go
  | .move (.acquire (.link _)) => .go
  | .move _ => .other

/-- After a wait the flag is tested before anything else. -/
def WaitsThenTests : List Action → Prop
  | [] => True
  | .wait :: l => TestsFirst Action.kind l ∧ WaitsThenTests l
  | _ :: l => WaitsThenTests l

theorem WaitsThenTests.testsFirst {l l' : List Action} (h : WaitsThenTests (l ++ .wait :: l')) :
    TestsFirst Action.kind l' := by
  induction l with
  | nil => exact h.1
  | cons a l ih =>
    cases a with
    | wait => exact ih h.2
    | _ => exact ih h

/-! ## A sampling command -/

namespace Command

variable {V ν : Type} {C : Command R V ν} {c : Target} {deadline : ℤ} {impl : Impl}
  {funcName : Text} {count timeoutMs : ℤ} {env : Script R} {s : Session R V ν}

/-- **The loop heeds the flag.** -/
theorem heeds_loopActions (rounds : List (Round R)) (s : Session R V ν) :
    Heeds Action.kind (C.loopActions c deadline rounds s) := by
  induction rounds generalizing s with
  | nil => trivial
  | cons r rounds ih =>
    rcases C.loopActions_cases c deadline s r rounds with heq | ⟨l, rest, heq, hl, hrest⟩
    · rw [heq]
      exact nofun
    · have hheeds : Heeds Action.kind rest := by
        rcases hrest with rfl | ⟨t, rfl⟩
        · trivial
        · exact ih t
      rw [heq]
      rcases hl with rfl | rfl | rfl <;> exact hheeds

theorem testsFirst_loopActions (rounds : List (Round R)) (s : Session R V ν) :
    TestsFirst Action.kind (C.loopActions c deadline rounds s) := by
  induction rounds generalizing s with
  | nil => trivial
  | cons r rounds ih =>
    rcases C.loopActions_cases c deadline s r rounds with heq | ⟨l, rest, heq, hl, hrest⟩
    · rw [heq]
      trivial
    · rw [heq]
      rcases hl with rfl | rfl | rfl
      · rcases hrest with rfl | ⟨t, rfl⟩
        · trivial
        · exact ih t
      · trivial
      · trivial

theorem waitsThenTests_loopActions (rounds : List (Round R)) (s : Session R V ν) :
    WaitsThenTests (C.loopActions c deadline rounds s) := by
  induction rounds generalizing s with
  | nil => trivial
  | cons r rounds ih =>
    rcases C.loopActions_cases c deadline s r rounds with heq | ⟨l, rest, heq, hl, hrest⟩
    · rw [heq]
      trivial
    · have hwaits : TestsFirst Action.kind rest ∧ WaitsThenTests rest := by
        rcases hrest with rfl | ⟨t, rfl⟩
        · exact ⟨trivial, trivial⟩
        · exact ⟨testsFirst_loopActions _ _, ih t⟩
      rw [heq]
      rcases hl with rfl | rfl | rfl
      · exact hwaits.2
      · exact hwaits.2
      · exact hwaits

/-- **After each of its waits a command tests the flag**, unless it ends. -/
theorem waitsThenTests_actions :
    WaitsThenTests (C.actions impl funcName count timeoutMs env s) := by
  obtain ⟨rest, hactions, hrest⟩ := C.actions_cases impl funcName count timeoutMs env s
  have hwaits : TestsFirst Action.kind rest ∧ WaitsThenTests rest := by
    rcases hrest with rfl | ⟨c, deadline, u, rfl⟩
    · exact ⟨trivial, trivial⟩
    · exact ⟨testsFirst_loopActions _ _, waitsThenTests_loopActions _ _⟩
  rw [hactions]
  rcases prepareActions_cases impl funcName env with heq | heq | heq
  · rw [heq]
    exact hwaits.2
  · rw [heq]
    exact hwaits.2
  · rw [heq]
    exact hwaits

variable (C impl funcName count timeoutMs env s) in
/-- A command clears the flag, and then heeds it. -/
theorem exists_actions : ∃ l, C.actions impl funcName count timeoutMs env s = .clearFlag :: l ∧
    Heeds Action.kind l := by
  obtain ⟨rest, hactions, hrest⟩ := C.actions_cases impl funcName count timeoutMs env s
  have hheeds : Heeds Action.kind rest := by
    rcases hrest with rfl | ⟨c, deadline, u, rfl⟩
    · trivial
    · exact heeds_loopActions _ _
  rw [hactions]
  rcases prepareActions_cases impl funcName env with heq | heq | heq
  · exact ⟨_, by rw [heq]; rfl, hheeds⟩
  · exact ⟨.attach :: rest, by rw [heq]; rfl, hheeds⟩
  · exact ⟨.attach :: .wait :: rest, by rw [heq]; rfl, hheeds⟩

end Command

/-- **A request that comes during a wait** of `trace` or `stack` ends the command. -/
theorem Command.ends_of_wait {V ν : Type} {C : Command R V ν} {impl : Impl} {funcName : Text}
    {count timeoutMs : ℤ} {env : Script R} {s : Session R V ν} {flag : Bool}
    {m m' : List (Moment Action)} {l : List Action}
    (hacts : acts (m ++ .request :: m') = C.actions impl funcName count timeoutMs env s)
    (hagrees : Agrees Action.kind flag (m ++ .request :: m')) (hwait : acts m = l ++ [.wait]) :
    Ends Action.kind (acts m') := by
  obtain ⟨body, hactions, hheeds⟩ := C.exists_actions impl funcName count timeoutMs env s
  have hsplit : l ++ .wait :: acts m' = C.actions impl funcName count timeoutMs env s := by
    rw [← hacts, acts_append, acts_cons_request, hwait, List.append_assoc]
    rfl
  have htests : TestsFirst Action.kind (acts m') :=
    WaitsThenTests.testsFirst (l := l) (hsplit ▸ waitsThenTests_actions)
  have hafter : Heeds Action.kind (acts m') := by
    rw [hactions] at hsplit
    cases l with
    | nil => cases hsplit
    | cons a l =>
      obtain ⟨-, rfl⟩ := List.cons.inj hsplit
      exact hheeds.of_suffix ⟨l ++ [.wait], List.append_assoc ..⟩
  exact ends_of_testsFirst hafter htests (agrees_after_request hagrees)

/-! ## The eBPF path -/

/-- What is added to the log has this property. -/
def World.Adds (P : List Action → Prop) (w t : World R) : Prop := ∃ l, t.log = w.log ++ l ∧ P l

section Adds

variable {P P' Q : List Action → Prop} {w t u : World R}

theorem World.Adds.mono (h : World.Adds P w t) (hP : ∀ l, P l → P' l) : World.Adds P' w t := by
  obtain ⟨l, hl, hPl⟩ := h
  exact ⟨l, hl, hP l hPl⟩

theorem World.Adds.trans (h : World.Adds P w t) (h' : World.Adds Q t u)
    (hPQ : ∀ l l', P l → Q l' → P' (l ++ l')) : World.Adds P' w u := by
  obtain ⟨l, hl, hPl⟩ := h
  obtain ⟨l', hl', hQl⟩ := h'
  exact ⟨l ++ l', by rw [hl', hl, List.append_assoc], hPQ l l' hPl hQl⟩

/-- Nothing is added. -/
theorem World.adds_nil (h : t.log = w.log) (hP : P []) : World.Adds P w t :=
  ⟨[], by rw [h, List.append_nil], hP⟩

/-- However the computation ends, what it adds to the log has this property. -/
abbrev AlwaysAdds {α : Type} (x : Watching R α) (w : World R) (P : List Action → Prop) : Prop :=
  Post x w (fun _ t => w.Adds P t) fun _ t => w.Adds P t

end Adds

/-- What happens in a stint that may go on. -/
abbrev CalmActions : List Action → Prop := Calm Action.kind

/-- What happens in a stint. -/
abbrev HeedingActions : List Action → Prop := Heeds Action.kind

/-- What happens at the end of a stint. -/
abbrev StillActions : List Action → Prop := Still Action.kind

theorem calm_moves (moves : List (Lifetimes.Move Resource)) : CalmActions (moves.map .move) := by
  intro a ha
  obtain ⟨m, -, rfl⟩ := List.mem_map.1 ha
  cases m with
  | acquire r => cases r <;> exact ⟨nofun, nofun⟩
  | release r => exact ⟨nofun, nofun⟩

theorem calm_concat {l l' : List Action} (h : CalmActions l) (h' : CalmActions l') :
    CalmActions (l ++ l') := calm_append.2 ⟨h, h'⟩

namespace WatchChecked

open World

variable {A : Arch R} {impl : Impl} {env : WatchScript R} {w : World R} {watch : Watch}
  {s : WatchState} {deadline maxEvents timeoutMs : ℤ}

theorem adds_openLoader : AlwaysAdds (openLoader env) w CalmActions := by
  simp only [openLoader, post_bind, post_modify, post_ite, post_pure, post_throw]
  refine ⟨fun _ => ⟨fun _ => ?_, fun _ => ?_⟩, fun _ => adds_nil rfl calm_nil⟩
  · exact ⟨[.move (.acquire .object)], rfl, calm_moves [.acquire .object]⟩
  · refine ⟨[.move (.acquire .object), .move (.release .object)], ?_,
      calm_moves [.acquire .object, .release .object]⟩
    exact List.append_assoc ..

theorem adds_attach {sys : UprobeSystem} {funcAddress : Addr} :
    AlwaysAdds (attach sys funcAddress) w CalmActions := by
  have hadds : ∀ loader, Adds CalmActions w (w.attached loader) := by
    intro loader
    have hcalm := calm_moves ((newLinks w.loader loader).map .acquire)
    rw [List.map_map] at hcalm
    exact ⟨_, rfl, hcalm⟩
  unfold AlwaysAdds Post attach
  cases UprobeLoader.attach sys funcAddress w.loader with
  | ok _ loader => exact hadds loader
  | error _ loader => exact hadds loader

theorem adds_attachAll {sys : ℕ → UprobeSystem} {targets : List FuncInfo} :
    AlwaysAdds (attachAll sys targets) w CalmActions := by
  induction targets generalizing w sys with
  | nil => exact adds_nil rfl calm_nil
  | cons fi targets ih =>
    rw [attachAll, AlwaysAdds, post_bind]
    refine adds_attach.mono (fun _ t h => ?_) fun _ _ h => h
    exact ih.mono (fun _ _ h' => h.trans h' fun _ _ => calm_concat)
      fun _ _ h' => h.trans h' fun _ _ => calm_concat

theorem adds_poll : AlwaysAdds (poll env) w CalmActions := by
  have hpoll : Adds CalmActions w (w.act .poll) := ⟨[.poll], rfl, by decide⟩
  simp only [poll, post_bind, post_modify, post_get, post_ite, post_pure, post_throw]
  refine ⟨fun _ => hpoll, fun _ => ⟨fun _ => hpoll, fun _ => ⟨fun _ => hpoll, fun _ => ?_⟩⟩⟩
  exact ⟨[.poll, .move (.acquire .ring)], List.append_assoc .., by decide⟩

/-- **The loop of polls heeds the flag**, and if it throws the flag has not been found set. -/
theorem adds_pollLoop {polls : List Watch.Poll} :
    Post (pollLoop env watch deadline polls s) w (fun _ t => Adds HeedingActions w t)
      fun _ t => Adds CalmActions w t := by
  induction polls generalizing w s with
  | nil => exact adds_nil rfl trivial
  | cons p polls ih =>
    simp only [pollLoop, post_bind, post_modify, post_ite, post_pure]
    refine ⟨fun _ => adds_nil rfl trivial, fun _ => ⟨fun hstop => ?_, fun hstop => ?_⟩⟩
    · exact ⟨[.testFlag p.stopFlag], rfl, by rw [hstop]; exact still_nil⟩
    · have htest : Adds CalmActions w (w.act (.testFlag p.stopFlag)) :=
        ⟨[.testFlag p.stopFlag], rfl, by rw [Bool.eq_false_iff.2 hstop]; decide⟩
      refine ⟨fun _ => htest.mono fun _ h => h.heeds, fun _ => ?_⟩
      refine adds_poll.mono (fun _ t ht => ?_) fun _ t ht => htest.trans ht fun _ _ => calm_concat
      have hcalm := htest.trans ht fun _ _ => calm_concat
      exact ih.mono (fun _ u hu => hcalm.trans hu fun _ _ h h' => h.heeds_append.2 h')
        fun _ u hu => hcalm.trans hu fun _ _ => calm_concat

theorem adds_detached : Adds StillActions w w.detached := by
  refine ⟨_, rfl, fun a ha => ?_⟩
  obtain ⟨r, -, rfl⟩ := List.mem_map.1 ha
  rfl

/-- The destructor only releases resources. -/
theorem adds_closeLoader {E : Exception → World R → Prop} :
    Post closeLoader w (fun _ t => Adds StillActions w t) E := by
  have hrelease : ∀ {t u : World R}, Adds StillActions w t → ∀ r,
      u.log = t.log ++ [.move (.release r)] → Adds StillActions w u := by
    intro t u ht r hlog
    refine ht.trans ⟨_, hlog, fun a ha => ?_⟩ fun _ _ h h' => still_append.2 ⟨h, h'⟩
    rw [List.mem_singleton.1 ha]
    rfl
  simp only [closeLoader, detachAll, post_bind, post_modify, post_get, post_ite, post_pure]
  refine ⟨fun _ => ⟨fun _ => ?_, fun _ => ?_⟩, fun _ => ⟨fun _ => ?_, fun _ => adds_detached⟩⟩
  · exact hrelease (hrelease adds_detached .ring rfl) .object rfl
  · exact hrelease adds_detached .ring rfl
  · exact hrelease adds_detached .object rfl

theorem adds_withLoader : Post (withLoader env watch timeoutMs) w
    (fun _ t => Adds HeedingActions w t) fun _ t => Adds CalmActions w t := by
  rw [withLoader, post_bind]
  refine adds_attachAll.mono (fun _ t ht => ?_) fun _ _ h => h
  rw [post_bind]
  refine adds_pollLoop.mono (fun _ u hu => ?_) fun _ u hu => ht.trans hu fun _ _ => calm_concat
  have hpolled := ht.trans hu fun _ _ h h' => h.heeds_append.2 h'
  exact hpolled.trans adds_detached fun _ _ => Heeds.append

/-- **The eBPF path heeds the flag**, and if it throws the flag has not been found set. -/
theorem adds_ebpfWatch : Post (ebpfWatch env watch timeoutMs) w
    (fun _ t => Adds HeedingActions w t) fun _ t => Adds CalmActions w t := by
  rw [post_ebpfWatch_stages]
  refine adds_openLoader.mono (fun _ t ht => ?_) fun _ _ h => h
  refine adds_withLoader.mono (fun evs u hu => ?_) fun e u hu => ?_
  · have hheeds := ht.trans hu fun _ _ h h' => h.heeds_append.2 h'
    exact adds_closeLoader.mono (fun _ _ h => hheeds.trans h fun _ _ => Heeds.append) fun _ _ h => h
  · have hcalm := ht.trans hu fun _ _ => calm_concat
    exact adds_closeLoader.mono (fun _ _ h => hcalm.trans h fun _ _ h h' => calm_concat h h'.calm)
      fun _ _ h => h

/-! ## The fallback -/

/-- How many targets the fallback comes to: a `trace()` that throws is the last. -/
def tracesCalled (A : Arch R) (impl : Impl) (maxEvents timeoutMs : ℤ) :
    List FuncInfo → (ℕ → Script R) → Session R TraceVars TraceNode → ℕ
  | [], _, _ => 0
  | fi :: targets, traces, s =>
    match trace A impl fi.name maxEvents timeoutMs (traces 0) s with
    | .ok _ t => tracesCalled A impl maxEvents timeoutMs targets (fun i => traces (i + 1)) t + 1
    | .error _ _ => 1

/-- **Each target is a stint** of its own. -/
theorem adds_ptraceWatch {targets : List FuncInfo} {traces : ℕ → Script R} :
    AlwaysAdds (ptraceWatch A impl maxEvents timeoutMs targets traces) w
      (Stints Action.kind (tracesCalled A impl maxEvents timeoutMs targets traces w.session)) := by
  induction targets generalizing w traces with
  | nil => exact adds_nil rfl .nil
  | cons fi targets ih =>
    obtain ⟨l, hactions, hheeds⟩ := Command.exists_actions (traceCommand A) impl fi.name maxEvents
      timeoutMs (traces 0) w.session
    have htraced : ∀ t, (traced A impl fi.name maxEvents timeoutMs (traces 0) t w).log =
        w.log ++ .clearFlag :: l := fun t => congrArg (w.log ++ ·) hactions
    have hcons : ∀ {n t u}, Adds (Stints Action.kind n)
        (traced A impl fi.name maxEvents timeoutMs (traces 0) t w) u →
        Adds (Stints Action.kind (n + 1)) w u := by
      intro n t u hu
      have hstint : Adds (fun l' => l' = .clearFlag :: l) w
          (traced A impl fi.name maxEvents timeoutMs (traces 0) t w) := ⟨_, htraced t, rfl⟩
      refine hstint.trans hu fun _ l' h h' => ?_
      rw [h]
      exact .cons rfl hheeds h'
    rw [tracesCalled]
    refine post_ptraceWatch_cons.2 ⟨fun nodes t htrace => ?_, fun e t htrace => ?_⟩
    · rw [htrace]
      exact ih.mono (fun _ _ hu => hcons hu) fun _ _ hu => hcons hu
    · rw [htrace]
      exact hcons (adds_nil rfl .nil)

/-! ## The command -/

/-- What `watch_checked` does once there are targets. -/
theorem adds_watchTargets {targets : List FuncInfo} :
    AlwaysAdds (watchTargets A impl maxEvents timeoutMs env targets) w fun l =>
      Nests Action.kind (tracesCalled A impl maxEvents timeoutMs targets env.traces w.session)
        (.clearFlag :: l) := by
  have hfallback : ∀ {u : World R}, Adds CalmActions w u → u.session = w.session →
      ∀ t, Adds (Stints Action.kind
          (tracesCalled A impl maxEvents timeoutMs targets env.traces u.session)) u t →
        Adds (fun l => Nests Action.kind
          (tracesCalled A impl maxEvents timeoutMs targets env.traces w.session)
          (.clearFlag :: l)) w t := by
    intro u hu hsession t ht
    rw [hsession] at ht
    exact hu.trans ht fun _ _ hcalm hstints => .nested rfl hcalm hstints
  rw [watchTargets]
  split_ifs with haccess hmax
  · have hnests := hfallback (adds_nil rfl calm_nil) (rfl : w.session = w.session)
    exact adds_ptraceWatch.mono (fun _ => hnests) fun _ => hnests
  · exact adds_nil rfl (.single rfl trivial)
  · rw [AlwaysAdds, post_tryCatch]
    refine (adds_ebpfWatch.and session_ebpfWatch).mono (fun _ t ht => ?_) fun _ u hu => ?_
    · exact ht.1.mono fun _ h => .single rfl h
    · have hnests := hfallback hu.1 hu.2
      exact adds_ptraceWatch.mono (fun _ => hnests) fun _ => hnests

end WatchChecked

open WatchChecked in
/-- What `watch_checked` does. -/
theorem nests_watchChecked (A : Arch R) (impl : Impl) (regex : RegexEngine) (funcName : Text)
    (maxEvents timeoutMs : ℤ) (env : WatchScript R) (pid : ℤ)
    (session : Session R TraceVars TraceNode) :
    Nests Action.kind ((impl.targets regex funcName).toOption.elim 0 fun targets =>
        tracesCalled A impl maxEvents timeoutMs targets env.traces session)
      (finalState (watchChecked A impl regex funcName maxEvents timeoutMs env)
        (World.init pid session)).log := by
  refine post_finalState (P := fun t : World R => Nests Action.kind _ t.log).1 ?_
  rw [watchChecked, post_bind, post_modify]
  cases impl.targets regex funcName with
  | error e => exact .single rfl trivial
  | ok targets =>
    refine post_bind.2 (adds_watchTargets.mono (fun _ t ht => ?_) fun _ t ht => ?_)
    · obtain ⟨l, hlog, hnests⟩ := ht
      change Nests Action.kind _ t.log
      rw [hlog]
      exact hnests
    · obtain ⟨l, hlog, hnests⟩ := ht
      rw [hlog]
      exact hnests

/-- What a command does, and how many times `trace()` is called where it is a `watch` that does not
take the eBPF path. -/
inductive CommandLog (A : Arch R) : ℕ → List Action → Prop
  | trace (impl : Impl) (funcName : Text) (count timeoutMs : ℤ) (env : Script R)
      (s : Session R TraceVars TraceNode) :
      CommandLog A 0 ((traceCommand A).actions impl funcName count timeoutMs env s)
  | stack (impl : Impl) (funcName : Text) (count timeoutMs : ℤ) (env : Script R)
      (s : Session R StackVars StackEvent) :
      CommandLog A 0 ((stackCommand A).actions impl funcName count timeoutMs env s)
  | watch (impl : Impl) (regex : RegexEngine) (funcName : Text) (maxEvents timeoutMs : ℤ)
      (env : WatchScript R) (pid : ℤ) (session : Session R TraceVars TraceNode) :
      CommandLog A ((impl.targets regex funcName).toOption.elim 0 fun targets =>
          WatchChecked.tracesCalled A impl maxEvents timeoutMs targets env.traces session)
        (finalState (watchChecked A impl regex funcName maxEvents timeoutMs env)
          (World.init pid session)).log

theorem CommandLog.nests {A : Arch R} {n : ℕ} {log : List Action} (h : CommandLog A n log) :
    Nests Action.kind n log := by
  cases h with
  | trace impl funcName count timeoutMs env s =>
    obtain ⟨l, hactions, hheeds⟩ :=
      Command.exists_actions (traceCommand A) impl funcName count timeoutMs env s
    rw [hactions]
    exact .single rfl hheeds
  | stack impl funcName count timeoutMs env s =>
    obtain ⟨l, hactions, hheeds⟩ :=
      Command.exists_actions (stackCommand A) impl funcName count timeoutMs env s
    rw [hactions]
    exact .single rfl hheeds
  | watch => exact nests_watchChecked ..

/-- **A request ends the command**: whenever it comes once the command has cleared the flag, nothing
more is attached to, waited for, polled or cleared, exactly if the command next tests the flag, and
the request has not come in the fallback, before the last `trace()`. -/
theorem request_ends_iff {A : Arch R} {n : ℕ} {log : List Action} (h : CommandLog A n log)
    {flag : Bool} {m m' : List (Moment Action)} (hacts : acts (m ++ .request :: m') = log)
    (hagrees : Agrees Action.kind flag (m ++ .request :: m')) (hstarted : acts m ≠ []) :
    Ends Action.kind (acts m') ↔ TestsFirst Action.kind (acts m') ∧
      (clears Action.kind (acts m) = 1 ∨ clears Action.kind (acts m) = n + 1) :=
  h.nests.ends_iff hacts hagrees hstarted

/-! ## Requests while a function is traced -/

/-- The flag is found set in the first iteration. -/
def Script.stopped : Script X86Regs := .sampling [{ Round.polling [] with stopFlag := true }]

/-- The request comes while `trace` waits for the process to stop. -/
theorem request_ends_iff_trace :
    Ends Action.kind (acts [.act (.testFlag true)]) := by
  have hlog : CommandLog x86_64 0 [.clearFlag, .attach, .wait, .testFlag true] :=
    .trace Impl.single "f".toList 1 1000 .stopped (Session.single default)
  have hagrees : Agrees Action.kind false
      ([.act .clearFlag, .act .attach, .act .wait] ++ .request :: [.act (.testFlag true)]) := by
    decide
  exact (request_ends_iff hlog rfl hagrees nofun).2 ⟨trivial, .inl rfl⟩

/-- With two targets, a request that comes while the first is traced is lost: the second is traced
all the same. -/
theorem request_lost : ∃ m m' : List (Moment Action),
    acts (m ++ .request :: m') =
      (finalState (watchChecked x86_64 Impl.pair .all ".*".toList 1 1000
          (.noEbpf false fun i => if i = 0 then .stopped else .sampling []))
        (World.init 1 (Session.single default))).log ∧
    Agrees Action.kind false (m ++ .request :: m') ∧ acts m ≠ [] ∧
    ¬ Ends Action.kind (acts m') := by
  refine ⟨[.act .clearFlag, .act .clearFlag, .act .attach, .act .wait],
    [.act (.testFlag true), .act .clearFlag, .act .attach, .act .wait], ?_, by decide, nofun,
    fun hends => ?_⟩
  · decide +kernel
  · cases hends .attach (by decide)

end Uatu
