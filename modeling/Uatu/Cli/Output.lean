import Uatu.Cli.Readability
import Uatu.Engine.Events
import Uatu.Engine.SampleOrder

/-!
# What a session shows

The lines that `main` prints after a command determine what the engine has returned, on either path
of `watch` and for whatever the process does, if no function is called by a name with a newline in
it: `watch_readable` and `stack_readable`.
-/

namespace Uatu

open Throwing

variable {R R' : Type}

/-- No function is called by a name with a newline in it. -/
def Impl.OneLine (impl : Impl) : Prop :=
  ∀ finder, impl.finder = .ok finder → ∀ fi ∈ finder.cache, '\n' ∉ fi.name

/-! ## `watch` -/

theorem WatchEvent.Of.told {fi : FuncInfo} {ev : WatchEvent} (h : ev.Of fi)
    (hname : '\n' ∉ fi.name) : ev.Told where
  funcName := h.funcName ▸ hname
  retValue := by
    obtain ⟨v, hv⟩ := h.retValue
    rw [hv]
    exact blank_not_mem_formatIntVal _ _
  params := by
    have hrange : ev.params ∈ Set.range (List.map ShownParam.text) := by
      rw [Set.range_list_map]
      exact h.forall_params paramTexts_shown
    obtain ⟨params, hparams⟩ := hrange
    exact ⟨params, hparams.symm⟩

/-- What `watch_checked` returns is told by what is printed of it. -/
theorem told_watchChecked {A : Arch R} {impl : Impl} {regex : RegexEngine} {funcName : Text}
    {maxEvents timeoutMs : ℤ} {env : WatchScript R} {w u : World R} {evs : List WatchEvent}
    (hnames : impl.OneLine)
    (h : watchChecked A impl regex funcName maxEvents timeoutMs env w = .ok (.ok evs) u) :
    ∀ ev ∈ evs, ev.Told := by
  obtain ⟨targets, htargets, hevents⟩ := watch_events h
  obtain ⟨finder, hfinder, hmem⟩ := Impl.mem_cache_of_targets htargets
  intro ev hev
  obtain ⟨fi, hfi, hof⟩ := hevents ev hev
  exact hof.told (hnames finder hfinder fi (hmem fi hfi))

/-- **Two runs of `watch` that print the same have returned the same events**, up to the digits of
the durations that are not shown. -/
theorem watch_readable {A : Arch R} {A' : Arch R'} {impl impl' : Impl} {regex regex' : RegexEngine}
    {funcName funcName' : Text} {maxEvents maxEvents' timeoutMs timeoutMs' : ℤ}
    {env : WatchScript R} {env' : WatchScript R'} {w u : World R} {w' u' : World R'}
    {evs evs' : List WatchEvent} (hnames : impl.OneLine) (hnames' : impl'.OneLine)
    (h : watchChecked A impl regex funcName maxEvents timeoutMs env w = .ok (.ok evs) u)
    (h' : watchChecked A' impl' regex' funcName' maxEvents' timeoutMs' env' w' =
      .ok (.ok evs') u') :
    printEvents evs = printEvents evs' ↔ List.Forall₂ WatchEvent.SameShown evs evs' :=
  printEvents_eq_iff (told_watchChecked hnames h) (told_watchChecked hnames' h')

theorem Impl.oneLine_single : Impl.single.OneLine := by
  intro finder hfinder
  obtain rfl := Except.ok.inj hfinder
  decide

/-- The call of `Script.timedCall`, a nanosecond later. -/
def Script.laterCall : Script X86Regs := .sampling [.trapAt 0x1000 100, .trapAt 0x2000 351]

theorem watch_readable_timedCall : ∃ evs evs' u u',
    watchChecked x86_64 Impl.single (fun _ => .error []) "f".toList 1 1
      (.noEbpf false fun _ => .timedCall) (World.init 1 (.single default)) = .ok (.ok evs) u ∧
    watchChecked x86_64 Impl.single (fun _ => .error []) "f".toList 1 1
      (.noEbpf false fun _ => .laterCall) (World.init 1 (.single default)) = .ok (.ok evs') u' ∧
    evs ≠ evs' ∧ printEvents evs = printEvents evs' := by
  have hrun : watchChecked x86_64 Impl.single (fun _ => .error []) "f".toList 1 1
      (.noEbpf false fun _ => .timedCall) (World.init 1 (.single default)) =
      .ok (.ok [⟨0, 250, "f".toList, [], "0".toList, false⟩]) (finalState (watchChecked x86_64
        Impl.single (fun _ => .error []) "f".toList 1 1 (.noEbpf false fun _ => .timedCall))
        (World.init 1 (.single default))) := by rfl
  have hlater : watchChecked x86_64 Impl.single (fun _ => .error []) "f".toList 1 1
      (.noEbpf false fun _ => .laterCall) (World.init 1 (.single default)) =
      .ok (.ok [⟨0, 251, "f".toList, [], "0".toList, false⟩]) (finalState (watchChecked x86_64
        Impl.single (fun _ => .error []) "f".toList 1 1 (.noEbpf false fun _ => .laterCall))
        (World.init 1 (.single default))) := by rfl
  refine ⟨_, _, _, _, hrun, hlater, by decide, ?_⟩
  rw [watch_readable Impl.oneLine_single Impl.oneLine_single hrun hlater]
  exact .cons ⟨rfl, by decide +kernel, rfl, rfl, rfl⟩ .nil

/-! ## `stack` -/

namespace Stack

theorem newline_not_mem_hexAddr (x : Addr) : '\n' ∉ hexAddr x := by
  unfold hexAddr
  rw [List.mem_append, List.leftpad, List.mem_append, not_or, not_or]
  exact ⟨by decide, fun h => absurd (List.eq_of_mem_replicate h) (by decide),
    fun h => plain_hex x _ h (by decide)⟩

theorem newline_not_mem_of_shown {finder : SymbolFinder} {frame : Text}
    (hnames : ∀ fi ∈ finder.cache, '\n' ∉ fi.name) (h : Shown finder frame) : '\n' ∉ frame := by
  obtain ⟨fi, hfi, rfl⟩ | ⟨x, rfl⟩ := h
  · exact hnames fi hfi
  · exact newline_not_mem_hexAddr x

theorem told_of_eventOf {finder : SymbolFinder} {name : Text} {r : Round R} {ev : StackEvent}
    (hnames : ∀ fi ∈ finder.cache, '\n' ∉ fi.name) (hname : '\n' ∉ name)
    (h : EventOf name finder r ev) : ev.Told where
  funcName := h.funcName ▸ hname
  frames := by
    obtain ⟨callers, hframes, -, hshown⟩ := h.frames
    rw [hframes, List.forall_mem_cons]
    exact ⟨hname, fun frame hframe => newline_not_mem_of_shown hnames (hshown frame hframe)⟩

/-- What `stack()` returns is told by what is printed of it. -/
theorem told_stack {A : Arch R} {impl : Impl} {funcName : Text} {count timeoutMs : ℤ}
    {env : Script R} {evs : List StackEvent} {s t : Session R StackVars StackEvent}
    (hnames : impl.OneLine) (h : stack A impl funcName count timeoutMs env s = .ok evs t) :
    ∀ ev ∈ evs, ev.Told := by
  obtain ⟨c, rounds, hserves, -, picked, hsampled⟩ := exists_sampled h
  have hlines := hnames c.finder hserves.finder
  obtain ⟨fi, hfi, hname⟩ := hserves.found
  have hfunc : '\n' ∉ c.funcName := by
    rw [hserves.funcName, ← hname]
    exact hlines fi hfi
  have htold : List.Forall₂ (fun ev r => ev.Told ∧ EventOf c.funcName c.finder r ev) evs picked :=
    List.Forall₂.flip (hsampled.events.imp fun r ev hr => ⟨told_of_eventOf hlines hfunc hr, hr⟩)
  exact ((List.forall₂_and_left ..).1 htold).1

end Stack

/-- **Two runs of `stack` that print the same have returned the same stacks.** -/
theorem stack_readable {A : Arch R} {A' : Arch R'} {impl impl' : Impl} {funcName funcName' : Text}
    {count count' timeoutMs timeoutMs' : ℤ} {env : Script R} {env' : Script R'}
    {s t : Session R StackVars StackEvent} {s' t' : Session R' StackVars StackEvent}
    {evs evs' : List StackEvent} (hnames : impl.OneLine) (hnames' : impl'.OneLine)
    (h : stack A impl funcName count timeoutMs env s = .ok evs t)
    (h' : stack A' impl' funcName' count' timeoutMs' env' s' = .ok evs' t') :
    printStacks evs = printStacks evs' ↔ List.Forall₂ StackEvent.SameShown evs evs' :=
  printStacks_eq_iff (Stack.told_stack hnames h) (Stack.told_stack hnames' h')

theorem stack_readable_timedCall : ∃ evs evs' u u',
    stack x86_64 Impl.single "f".toList 1 1 .timedCall (.single default) = .ok evs u ∧
    stack x86_64 Impl.single "f".toList 1 2 .laterCall (.single default) = .ok evs' u' ∧
    evs ≠ [] ∧ printStacks evs = printStacks evs' := by
  have hlater : stack x86_64 Impl.single "f".toList 1 2 .laterCall (.single default) =
      .ok [⟨100, "f".toList, ["f".toList, Stack.hexAddr 0x2000]⟩]
        (finalState (stack x86_64 Impl.single "f".toList 1 2 .laterCall) (.single default)) := by
    rfl
  refine ⟨_, _, _, _, stack_timedCall, hlater, List.cons_ne_nil _ _, ?_⟩
  rw [stack_readable Impl.oneLine_single Impl.oneLine_single stack_timedCall hlater]
  exact .cons ⟨rfl, rfl⟩ .nil

end Uatu
