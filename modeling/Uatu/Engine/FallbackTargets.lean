import Uatu.Engine.Attribution
import Uatu.Engine.EventBound

/-!
# Which function the fallback watches for a target

The fallback hands its targets to `trace()` by name, which looks the name up once more and finds
the first function that has it. So the events of a target come from the function at its address,
as on the eBPF path, exactly if names and addresses tell the targets apart
(`fallback_attribution_iff`).
-/

namespace Uatu

open ByteMemory Throwing

variable {R : Type}

namespace WatchChecked

/-- A target that the fallback has traced: where its `trace()` started, under which script, and
what it returned. -/
structure Traced (R : Type) where
  target : FuncInfo
  env : Script R
  session : Session R TraceVars TraceNode
  nodes : List TraceNode

/-- Its events. -/
def Traced.events (x : Traced R) : List WatchEvent := x.nodes.map (ptraceEvent x.target)

/-- The targets that the fallback traces. -/
def tracedTargets (A : Arch R) (impl : Impl) (maxEvents timeoutMs : ℤ) :
    List FuncInfo → (ℕ → Script R) → Session R TraceVars TraceNode → List (Traced R)
  | [], _, _ => []
  | fi :: targets, traces, s =>
    match trace A impl fi.name maxEvents timeoutMs (traces 0) s with
    | .ok nodes t =>
      ⟨fi, traces 0, s, nodes⟩ ::
        tracedTargets A impl maxEvents timeoutMs targets (fun i => traces (i + 1)) t
    | .error _ _ => []

/-- The breakpoint that starts the samples of a target is planted at this address. -/
def Traced.Plants (A : Arch R) (impl : Impl) (maxEvents timeoutMs : ℤ) (x : Traced R)
    (addr : Addr) : Prop :=
  ∃ c deadline s t,
    (traceCommand A).prepare impl x.target.name maxEvents timeoutMs x.env x.session =
      .ok (c, deadline) s ∧
    (traceCommand A).arm c x.env s = .ok () t ∧ c.entryVaddr = addr ∧
    t.tracee.mem = plant A.makePatchedWord s.tracee.mem addr

variable {A : Arch R} {impl : Impl} {maxEvents timeoutMs : ℤ} {targets : List FuncInfo}
  {traces : ℕ → Script R} {w w' : World R} {evs : List WatchEvent}
  {session : Session R TraceVars TraceNode}

/-- **The events of the fallback** are those of its targets, in turn. -/
theorem ptraceWatch_eq_ok
    (h : ptraceWatch A impl maxEvents timeoutMs targets traces w = .ok evs w') :
    evs = (tracedTargets A impl maxEvents timeoutMs targets traces w.session).flatMap
        Traced.events ∧
      (tracedTargets A impl maxEvents timeoutMs targets traces w.session).map Traced.target =
        targets := by
  induction targets generalizing w evs traces with
  | nil =>
    cases h
    exact ⟨rfl, rfl⟩
  | cons fi targets ih =>
    rw [ptraceWatch] at h
    rw [tracedTargets]
    cases htrace : trace A impl fi.name maxEvents timeoutMs (traces 0) w.session with
    | error e t =>
      rw [bind_error (traceIn_error htrace)] at h
      cases h
    | ok nodes t =>
      rw [bind_ok (traceIn_ok htrace)] at h
      obtain ⟨evs', u, hrest, hpure⟩ := bind_eq_ok h
      cases hpure
      obtain ⟨hevs, hmap⟩ := ih hrest
      exact ⟨congrArg (nodes.map (ptraceEvent fi) ++ ·) hevs, congrArg (fi :: ·) hmap⟩

/-- The `trace()` of each of them has returned. -/
theorem trace_of_mem_tracedTargets {x : Traced R}
    (hx : x ∈ tracedTargets A impl maxEvents timeoutMs targets traces session) :
    ∃ t, trace A impl x.target.name maxEvents timeoutMs x.env x.session = .ok x.nodes t := by
  induction targets generalizing session traces with
  | nil => cases hx
  | cons fi targets ih =>
    rw [tracedTargets] at hx
    cases htrace : trace A impl fi.name maxEvents timeoutMs (traces 0) session with
    | error e t =>
      rw [htrace] at hx
      cases hx
    | ok nodes t =>
      rw [htrace] at hx
      obtain rfl | hx := List.mem_cons.1 hx
      · exact ⟨t, htrace⟩
      · exact ih hx

/-- **Where the breakpoint is planted**: at the address of the function that is found by name. -/
theorem Traced.plants_iff {x : Traced R} {finder : SymbolFinder} {addr : Addr}
    (hfinder : impl.finder = .ok finder)
    (hx : ∃ t, trace A impl x.target.name maxEvents timeoutMs x.env x.session = .ok x.nodes t) :
    x.Plants A impl maxEvents timeoutMs addr ↔
      ∃ info, finder.find x.target.name = some info ∧ info.address + impl.getAslrSlide = addr := by
  obtain ⟨t, htrace⟩ := hx
  obtain ⟨c, deadline, s, s', -, -, hprep, harm, -⟩ := Command.run_eq_ok htrace
  have hprepared := Command.prepared_of_prepare hprep
  constructor
  · rintro ⟨c', deadline', u, u', hprep', -, rfl, -⟩
    obtain ⟨finder', info, hfinder', hfind, hentry⟩ :=
      (Command.prepared_of_prepare hprep').found
    cases hfinder.symm.trans hfinder'
    exact ⟨info, hfind, hentry.symm⟩
  · rintro ⟨info, hfind, rfl⟩
    have hentry := hprepared.entryVaddr hfinder hfind
    refine ⟨c, deadline, s, s', hprep, harm, hentry, ?_⟩
    rw [(Command.armed_of_arm harm).tracee, hentry]
    rfl

end WatchChecked

/-- A target that is found is one of the targets. -/
theorem Watch.mem_of_target {w : Watch} {a : Addr} {i : ℕ} {fi : FuncInfo}
    (h : w.target a = some (i, fi)) : fi ∈ w.targets := by
  simp only [target, bind, Option.bind_eq_some_iff] at h
  obtain ⟨j, -, f, hf, heq⟩ := h
  obtain ⟨-, rfl⟩ : j = i ∧ f = fi := by simpa using heq
  exact List.mem_of_getElem? hf

/-- At the address of each target it is itself found, unless another one shares the address. -/
theorem Watch.target_self_iff {w : Watch} :
    (∀ fi ∈ w.targets, ∃ idx, w.target (fi.address + w.slide) = some (idx, fi)) ↔
      ∀ fi ∈ w.targets, ∀ fj ∈ w.targets, fj.address = fi.address → fj = fi := by
  constructor
  · intro h fi hfi fj hfj haddr
    obtain ⟨i, hi⟩ := h fi hfi
    obtain ⟨j, hj⟩ := h fj hfj
    rw [haddr, hi] at hj
    cases hj
    rfl
  · intro h fi hfi
    obtain ⟨⟨idx, fj⟩, htarget⟩ := exists_target hfi
    obtain rfl : fj = fi :=
      h fi hfi fj (mem_of_target htarget) (add_right_cancel (address_target htarget))
    exact ⟨idx, htarget⟩

namespace WatchChecked

variable {regex : RegexEngine} {funcName : Text} {env : WatchScript R} {pid : ℤ}

/-- What is returned without the eBPF path are the events of the traced targets, which are all
targets. -/
theorem fallback_eq_ok (htargets : impl.targets regex funcName = .ok targets)
    (hebpf : ¬ (env.access = true ∧
      EbpfCompletes env ⟨targets, impl.getAslrSlide, maxEvents⟩ timeoutMs pid))
    (h : watchChecked A impl regex funcName maxEvents timeoutMs env (World.init pid session) =
      .ok (.ok evs) w) :
    evs = (tracedTargets A impl maxEvents timeoutMs targets env.traces session).flatMap
        Traced.events ∧
      (tracedTargets A impl maxEvents timeoutMs targets env.traces session).map Traced.target =
        targets := by
  obtain ⟨targets', htargets', hwatch⟩ := watchChecked_eq_ok.1 h
  cases htargets.symm.trans htargets'
  obtain ⟨haccess, -, hcompletes⟩ | ⟨-, t, hsession, hptrace⟩ := watchTargets_eq_ok hwatch
  · exact absurd ⟨haccess, returns_ebpfWatch.1 (returns_of_ok hcompletes)⟩ hebpf
  · rw [← show t.session = session from hsession]
    exact ptraceWatch_eq_ok hptrace

end WatchChecked

open WatchChecked in
/-- **The fallback watches its targets** at their own addresses, and at each of them the eBPF path
would find the same target, exactly if the first function with the name of a target has its address
and no two targets share one. -/
theorem fallback_attribution_iff {A : Arch R} {impl : Impl} {regex : RegexEngine}
    {funcName : Text} {maxEvents timeoutMs : ℤ} {env : WatchScript R} {pid : ℤ}
    {session : Session R TraceVars TraceNode} {finder : SymbolFinder} {targets : List FuncInfo}
    {evs : List WatchEvent} {w : World R} (hfinder : impl.finder = .ok finder)
    (htargets : impl.targets regex funcName = .ok targets)
    (hebpf : ¬ (env.access = true ∧
      EbpfCompletes env ⟨targets, impl.getAslrSlide, maxEvents⟩ timeoutMs pid))
    (h : watchChecked A impl regex funcName maxEvents timeoutMs env (World.init pid session) =
      .ok (.ok evs) w) :
    evs = (tracedTargets A impl maxEvents timeoutMs targets env.traces session).flatMap
        Traced.events ∧
    (tracedTargets A impl maxEvents timeoutMs targets env.traces session).map Traced.target =
        targets ∧
    ((∀ x ∈ tracedTargets A impl maxEvents timeoutMs targets env.traces session,
        x.Plants A impl maxEvents timeoutMs (x.target.address + impl.getAslrSlide) ∧
        ∃ idx, (Watch.mk targets impl.getAslrSlide maxEvents).target
          (x.target.address + impl.getAslrSlide) = some (idx, x.target)) ↔
      ∀ fi ∈ targets, (∃ info, finder.find fi.name = some info ∧ info.address = fi.address) ∧
        ∀ fj ∈ targets, fj.address = fi.address → fj = fi) := by
  obtain ⟨hevs, hmap⟩ := fallback_eq_ok htargets hebpf h
  refine ⟨hevs, hmap, ?_⟩
  have hplants : ∀ x ∈ tracedTargets A impl maxEvents timeoutMs targets env.traces session,
      (x.Plants A impl maxEvents timeoutMs (x.target.address + impl.getAslrSlide) ↔
        ∃ info, finder.find x.target.name = some info ∧ info.address = x.target.address) := by
    intro x hx
    rw [Traced.plants_iff hfinder (trace_of_mem_tracedTargets hx)]
    simp only [add_left_inj]
  have hover : ∀ P : FuncInfo → Prop, (∀ fi ∈ targets, P fi) ↔
      ∀ x ∈ tracedTargets A impl maxEvents timeoutMs targets env.traces session, P x.target := by
    intro P
    conv_lhs => rw [← hmap, List.forall_mem_map]
  have hself := Watch.target_self_iff (w := ⟨targets, impl.getAslrSlide, maxEvents⟩)
  rw [forall₂_and, forall₂_and, ← hself, forall₂_congr hplants, hover, hover]

/-! ## Overloads -/

/-- A function `f` of one argument, which it returns. -/
def FuncInfo.overload (mangledName type : Text) (address : Addr) : FuncInfo :=
  ⟨"f".toList, mangledName, address, 16, [type], type, false⟩

def FuncInfo.overloads : List FuncInfo :=
  [overload "_Z1fi".toList "int".toList 0x1000, overload "_Z1fc".toList "char".toList 0x1010]

/-- A process with two functions of one name. -/
def Impl.overloads : Impl := { Impl.single with finder := .ok ⟨FuncInfo.overloads⟩ }

/-- Two calls of the first. -/
def WatchScript.firstTwice : WatchScript X86Regs := .noEbpf false fun _ => .oneCall 0x1000

open WatchChecked in
/-- One of the calls of the first is reported as a call of the second. -/
theorem fallback_misattributes : ∃ evs w,
    watchChecked x86_64 Impl.overloads .all ".*".toList 1 1000 .firstTwice
      (World.init 1 (Session.single default)) = .ok (.ok evs) w ∧
    evs.length = 2 ∧
    ¬ ∀ x ∈ tracedTargets x86_64 Impl.overloads 1 1000 FuncInfo.overloads
        WatchScript.firstTwice.traces (Session.single default),
      x.Plants x86_64 Impl.overloads 1 1000
        (x.target.address + Impl.overloads.getAslrSlide) := by
  have hcount : eventCount (watchChecked x86_64 Impl.overloads .all ".*".toList 1 1000 .firstTwice
      (World.init 1 (Session.single default))) = 2 := by decide +kernel
  obtain ⟨evs, w, hrun, htwo⟩ := exists_of_eventCount Nat.zero_lt_two hcount
  have htargets : Impl.overloads.targets .all ".*".toList = .ok FuncInfo.overloads := rfl
  refine ⟨evs, w, hrun, htwo, fun hplants => ?_⟩
  have hsecond : FuncInfo.overload "_Z1fc".toList "char".toList 0x1010 ∈
      (tracedTargets x86_64 Impl.overloads 1 1000 FuncInfo.overloads
        WatchScript.firstTwice.traces (Session.single default)).map Traced.target := by
    rw [(fallback_eq_ok htargets (fun h => by cases h.1) hrun).2]
    decide
  obtain ⟨x, hx, htarget⟩ := List.mem_map.1 hsecond
  obtain ⟨info, hfind, haddr⟩ :=
    (Traced.plants_iff rfl (trace_of_mem_tracedTargets hx)).1 (hplants x hx)
  rw [htarget] at hfind haddr
  cases hfind
  exact absurd haddr (by decide)

open WatchChecked in
/-- With two functions of different names, each is watched at its address. -/
theorem fallback_attribution_iff_pair : ∃ evs w,
    watchChecked x86_64 Impl.pair .all ".*".toList 1 1000 .twoCalls
      (World.init 1 (Session.single default)) = .ok (.ok evs) w ∧
    ∀ x ∈ tracedTargets x86_64 Impl.pair 1 1000
        [⟨"f".toList, "f".toList, 0x1000, 16, [], "int".toList, false⟩,
          ⟨"g".toList, "g".toList, 0x1010, 16, [], "int".toList, false⟩]
        WatchScript.twoCalls.traces (Session.single default),
      x.Plants x86_64 Impl.pair 1 1000 (x.target.address + Impl.pair.getAslrSlide) := by
  obtain ⟨evs, w, hrun, -⟩ := exists_twoCalls
  refine ⟨evs, w, hrun, fun x hx => ?_⟩
  refine ((fallback_attribution_iff rfl rfl (fun h => by cases h.1) hrun).2.2.2 ?_ x hx).1
  decide

end Uatu
