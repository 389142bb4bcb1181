import Uatu.Ebpf.UprobeLoader
import Uatu.Engine.Actions
import Uatu.Engine.Trace
import Uatu.Engine.Watch

/-!
# `watch_checked()`

`AttachEngine::watch_checked` of `src/engine/attach_engine.cpp` as a whole: the targets are looked
up, the eBPF path loads the object, attaches the probes and polls, and where it is not there or
throws, each target is traced in turn. What `UprobeLoader` holds is released by its destructor,
which runs when the eBPF path throws as well as when it returns. Only what is thrown before or in
the fallback itself escapes.
-/

namespace Uatu

open Lifetimes Throwing

variable {R : Type}

/-! ## The targets -/

/-- `std::regex`: a pattern is compiled, which may throw, and then searched for in texts, which
may throw too. -/
abbrev RegexEngine := Text → Except Text (Text → Except Text Bool)

/-- The loop of `find_regex`. -/
def regexSearch (re : Text → Except Text Bool) : List FuncInfo → Except Text (List FuncInfo)
  | [] => return []
  | info :: infos => do
    if ← re info.name then return info :: (← regexSearch re infos) else regexSearch re infos

/-- `find_regex`. -/
def SymbolFinder.findRegex (regex : RegexEngine) (pattern : Text) (finder : SymbolFinder) :
    Except Text (List FuncInfo) := do
  regexSearch (← regex pattern) finder.cache

/-- `EngineError`. -/
structure EngineError where
  message : Text
  deriving DecidableEq

/-- The functions of this name, or else those whose name a pattern is found in. -/
def Impl.resolve (impl : Impl) (regex : RegexEngine) (funcName : Text) :
    Except Text (List FuncInfo) := do
  let finder ← impl.finder
  match finder.find funcName with
  | some info => return [info]
  | none => finder.findRegex regex funcName

/-- The targets: those functions which have an address. -/
def Impl.targets (impl : Impl) (regex : RegexEngine) (funcName : Text) :
    Except EngineError (List FuncInfo) :=
  match impl.resolve regex funcName with
  | .error msg =>
    .error ⟨if "DWARF".toList <:+: msg then msg else "no DWARF debug info: ".toList ++ msg⟩
  | .ok found =>
    let targets := found.filter (·.address ≠ 0)
    if targets = [] then
      .error ⟨"function not found (or all inlined): ".toList ++ funcName⟩
    else .ok targets

/-! ## The state of the command -/

/-- What the environment answers during one `watch_checked`. -/
structure WatchScript (R : Type) where
  /-- `access` finds the BPF object readable. -/
  access : Bool
  /-- `bpf_object__open` and `bpf_object__load` succeed. -/
  openObject : Bool
  loadObject : Bool
  /-- For the `attach` of each target. -/
  sys : ℕ → UprobeSystem
  /-- The reading of the clock from which the deadline is counted. -/
  start : ℤ
  /-- `bpf_object__find_map_by_name` and `ring_buffer__new` succeed. -/
  findMap : Bool
  newRing : Bool
  polls : List Watch.Poll
  /-- For the `trace()` of each target of the fallback. -/
  traces : ℕ → Script R

def BpfLink.resource (link : BpfLink) : Resource := .link link.id

/-- A `watch_checked` in progress. -/
structure World (R : Type) where
  session : Session R TraceVars TraceNode
  loader : UprobeLoader
  /-- The pointers `obj` and `rb` of the loader are not null. -/
  obj : Bool
  ring : Bool
  log : List Action

/-- A computation of `watch_checked`. -/
abbrev Watching (R : Type) := EStateM Exception (World R)

namespace World

/-- Before the command starts. -/
def init (pid : ℤ) (session : Session R TraceVars TraceNode) : World R :=
  ⟨session, ⟨pid, [], [], []⟩, false, false, []⟩

def act (a : Action) (w : World R) : World R := { w with log := w.log ++ [a] }

def acquire (r : Resource) (w : World R) : World R := w.act (.move (.acquire r))

def release (r : Resource) (w : World R) : World R := w.act (.move (.release r))

/-- The links that have been created since, kept or not. -/
def newLinks (loader loader' : UprobeLoader) : List Resource :=
  (loader'.created.drop loader.created.length).map BpfLink.resource

/-- The world after an `attach`. -/
def attached (loader : UprobeLoader) (w : World R) : World R :=
  { w with
    loader
    log := w.log ++ (newLinks w.loader loader).map fun r => .move (.acquire r) }

/-- The links of a loader. -/
def links (w : World R) : List Resource := w.loader.links.map BpfLink.resource

/-- The world after `detach_all`. -/
def detached (w : World R) : World R :=
  { w with
    loader := { w.loader with links := [] }
    log := w.log ++ w.links.map fun r => .move (.release r) }

end World

/-! ## `UprobeLoader` -/

namespace WatchChecked

/-- `BPF_OBJ_PATH`, unless the build sets another. -/
def bpfObjPath : Text := "/tmp/watch.bpf.o".toList

/-- The constructor of `UprobeLoader`. -/
def openLoader (env : WatchScript R) : Watching R Unit := do
  modify fun w =>
    { w with loader := { w.loader with links := [] }, obj := false, ring := false }
  if env.openObject then modify fun w => { w.acquire .object with obj := true }
  else throw (.runtime ("bpf_object__open failed: ".toList ++ bpfObjPath))
  if env.loadObject then pure ()
  else do
    modify fun w => { w.release .object with obj := false }
    throw (.runtime "bpf_object__load failed — need CAP_BPF or root".toList)

/-- `attach`. -/
def attach (sys : UprobeSystem) (funcAddress : Addr) : Watching R Unit := fun w =>
  match UprobeLoader.attach sys funcAddress w.loader with
  | .ok _ loader => .ok () (w.attached loader)
  | .error text loader => .error (.runtime text) (w.attached loader)

/-- `attach`, for each target. -/
def attachAll : (ℕ → UprobeSystem) → List FuncInfo → Watching R Unit
  | _, [] => return ()
  | sys, fi :: targets => do
    attach (sys 0) fi.address
    attachAll (fun i => sys (i + 1)) targets

/-- `poll`, up to the records it delivers: the first one creates the ring buffer. -/
def poll (env : WatchScript R) : Watching R Unit := do
  modify (World.act .poll)
  if (← get).ring then return ()
  else if env.findMap = false then
    throw (.runtime "ring buffer map 'events' not found".toList)
  else if env.newRing = false then throw (.runtime "ring_buffer__new failed".toList)
  else modify fun w => { w.acquire .ring with ring := true }

/-- `detach_all`. -/
def detachAll : Watching R Unit := modify World.detached

/-- The destructor of `UprobeLoader`. -/
def closeLoader : Watching R Unit := do
  detachAll
  if (← get).ring then modify fun w => { w.release .ring with ring := false } else pure ()
  if (← get).obj then modify fun w => { w.release .object with obj := false } else pure ()

/-! ## The two paths -/

/-- The loop of polls, with what it does to the loader. -/
def pollLoop (env : WatchScript R) (w : Watch) (deadline : ℤ) :
    List Watch.Poll → WatchState → Watching R WatchState
  | [], s => return s
  | p :: polls, s => do
    if ¬ (s.events.length : ℤ) < w.maxEvents then return s
    else do
      modify (World.act (.testFlag p.stopFlag))
      if p.stopFlag then return s
      else if deadline ≤ p.now then return s
      else do
        poll env
        pollLoop env w deadline polls (p.records.foldl w.callback s)

/-- What happens while there is a loader. -/
def withLoader (env : WatchScript R) (w : Watch) (timeoutMs : ℤ) :
    Watching R (List WatchEvent) := do
  attachAll env.sys w.targets
  let s ← pollLoop env w (env.start + timeoutMs * 1000000) env.polls Watch.start
  detachAll
  return s.events

/-- The eBPF path, inside the `try` block. -/
def ebpfWatch (env : WatchScript R) (w : Watch) (timeoutMs : ℤ) :
    Watching R (List WatchEvent) := do
  openLoader env
  let events ← tryCatch (withLoader env w timeoutMs) fun e => do
    closeLoader
    throw e
  closeLoader
  return events

/-- The world after a `trace()`. -/
def traced (A : Arch R) (impl : Impl) (funcName : Text) (count timeoutMs : ℤ) (env : Script R)
    (session : Session R TraceVars TraceNode) (w : World R) : World R :=
  { w with
    session
    log := w.log ++ (traceCommand A).actions impl funcName count timeoutMs env w.session }

/-- `trace()`, in a world. -/
def traceIn (A : Arch R) (impl : Impl) (funcName : Text) (count timeoutMs : ℤ) (env : Script R) :
    Watching R (List TraceNode) := fun w =>
  match trace A impl funcName count timeoutMs env w.session with
  | .ok nodes session => .ok nodes (traced A impl funcName count timeoutMs env session w)
  | .error e session => .error e (traced A impl funcName count timeoutMs env session w)

/-- The event that the fallback makes of a sample of a target. -/
def ptraceEvent (fi : FuncInfo) (node : TraceNode) : WatchEvent where
  timestampNs := 0
  durationNs := node.durationNs
  funcName := fi.name
  params := []
  retValue := formatIntVal node.retRaw fi.returnType

/-- The lambda `ptrace_watch`. -/
def ptraceWatch (A : Arch R) (impl : Impl) (maxEvents timeoutMs : ℤ) :
    List FuncInfo → (ℕ → Script R) → Watching R (List WatchEvent)
  | [], _ => return []
  | fi :: targets, traces => do
    let nodes ← traceIn A impl fi.name maxEvents timeoutMs (traces 0)
    let evs ← ptraceWatch A impl maxEvents timeoutMs targets fun i => traces (i + 1)
    return nodes.map (ptraceEvent fi) ++ evs

/-- `watch_checked`, once there are targets. -/
def watchTargets (A : Arch R) (impl : Impl) (maxEvents timeoutMs : ℤ) (env : WatchScript R)
    (targets : List FuncInfo) : Watching R (List WatchEvent) :=
  if env.access = false then ptraceWatch A impl maxEvents timeoutMs targets env.traces
  else if maxEvents < 0 then throw .reserve
  else tryCatch (ebpfWatch env ⟨targets, impl.getAslrSlide, maxEvents⟩ timeoutMs) fun _ =>
    ptraceWatch A impl maxEvents timeoutMs targets env.traces

end WatchChecked

/-- `AttachEngine::watch_checked`. -/
def watchChecked (A : Arch R) (impl : Impl) (regex : RegexEngine) (funcName : Text)
    (maxEvents timeoutMs : ℤ) (env : WatchScript R) :
    Watching R (Except EngineError (List WatchEvent)) := do
  modify (World.act .clearFlag)
  match impl.targets regex funcName with
  | .error e => return .error e
  | .ok targets =>
    return .ok (← WatchChecked.watchTargets A impl maxEvents timeoutMs env targets)

namespace WatchChecked

variable {A : Arch R} {impl : Impl} {funcName : Text} {count timeoutMs : ℤ} {env : Script R}
  {w : World R} {session : Session R TraceVars TraceNode}

theorem traceIn_ok {nodes : List TraceNode}
    (h : trace A impl funcName count timeoutMs env w.session = .ok nodes session) :
    traceIn A impl funcName count timeoutMs env w =
      .ok nodes (traced A impl funcName count timeoutMs env session w) := by
  simp only [traceIn, h]

theorem traceIn_error {e : Exception}
    (h : trace A impl funcName count timeoutMs env w.session = .error e session) :
    traceIn A impl funcName count timeoutMs env w =
      .error e (traced A impl funcName count timeoutMs env session w) := by
  simp only [traceIn, h]

/-- The eBPF path opens the loader, uses it and closes it, whatever is thrown in between. -/
theorem post_ebpfWatch_stages {env : WatchScript R} {watch : Watch}
    {Q : List WatchEvent → World R → Prop} {E : Exception → World R → Prop} :
    Post (ebpfWatch env watch timeoutMs) w Q E ↔
      Post (openLoader env) w
        (fun _ t => Post (withLoader env watch timeoutMs) t
          (fun evs u => Post closeLoader u (fun _ => Q evs) E)
          fun e u => Post closeLoader u (fun _ => E e) E) E := by
  simp only [ebpfWatch, post_bind, post_tryCatch, post_pure, post_throw]

/-- The fallback traces the first target and, if `trace()` returns, the others. -/
theorem post_ptraceWatch_cons {maxEvents : ℤ} {fi : FuncInfo} {targets : List FuncInfo}
    {traces : ℕ → Script R} {Q : List WatchEvent → World R → Prop}
    {E : Exception → World R → Prop} :
    Post (ptraceWatch A impl maxEvents timeoutMs (fi :: targets) traces) w Q E ↔
      (∀ nodes t, trace A impl fi.name maxEvents timeoutMs (traces 0) w.session = .ok nodes t →
        Post (ptraceWatch A impl maxEvents timeoutMs targets fun i => traces (i + 1))
          (traced A impl fi.name maxEvents timeoutMs (traces 0) t w)
          (fun evs => Q (nodes.map (ptraceEvent fi) ++ evs)) E) ∧
      ∀ e t, trace A impl fi.name maxEvents timeoutMs (traces 0) w.session = .error e t →
        E e (traced A impl fi.name maxEvents timeoutMs (traces 0) t w) := by
  rw [ptraceWatch, post_bind]
  cases htrace : trace A impl fi.name maxEvents timeoutMs (traces 0) w.session with
  | ok nodes t =>
    rw [Post, traceIn_ok htrace]
    refine ⟨fun h => ⟨fun _ _ heq => ?_, fun _ _ heq => ?_⟩, fun h => ?_⟩
    · cases heq
      exact post_bind.1 h
    · cases heq
    · exact post_bind.2 (h.1 _ _ rfl)
  | error e t =>
    rw [Post, traceIn_error htrace]
    refine ⟨fun h => ⟨fun _ _ heq => ?_, fun _ _ heq => ?_⟩, fun h => h.2 _ _ rfl⟩
    · cases heq
    · cases heq
      exact h

end WatchChecked

end Uatu
