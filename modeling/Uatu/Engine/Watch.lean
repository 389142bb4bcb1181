import Uatu.Ebpf.Watch
import Uatu.Engine.Format
import Mathlib.Data.List.AList

/-!
# The eBPF path of `watch`

The part of `AttachEngine::watch_checked` that turns records of the ring buffer into events: the
index of the targets by runtime address, the callback of a poll with its cache of entries, and the
loop of polls. A record is handled some time after its probe was hit, so it comes with the memory of
the process at the time it is handled.
-/

namespace Uatu

/-- The constants of the loop: the functions to watch, the slide and the number of events asked
for. -/
structure Watch where
  targets : List FuncInfo
  slide : Word
  maxEvents : ℤ

/-- `EntryData`: what the callback keeps of an entry until the exit comes. -/
structure EntryData where
  args : Args
  idx : ℕ
  strVals : List Text

/-- The local variables of the loop. -/
structure WatchState where
  entryCache : AList fun _ : Tid => EntryData
  events : List WatchEvent

/-- A record, and the memory when it is handled. -/
abbrev Delivery := RawEvent × ProcMem

namespace Watch

def start : WatchState := ⟨∅, []⟩

variable (w : Watch)

/-- `addr_to_idx`: of several targets at one address the last. -/
def addrToIdx : AList fun _ : Addr => ℕ :=
  w.targets.zipIdx.foldl (fun m p => m.insert (p.1.address + w.slide) p.2) ∅

/-- The target at a runtime address, and its index. -/
def target (addr : Addr) : Option (ℕ × FuncInfo) := do
  let idx ← w.addrToIdx.lookup addr
  let fi ← w.targets[idx]?
  return (idx, fi)

/-- What the callback keeps of the entry of a target. -/
def entryData (d : Delivery) (idx : ℕ) (fi : FuncInfo) : EntryData :=
  ⟨d.1.args, idx, resolveStrs d.2 d.1.args fi⟩

/-- The parameters of an exit of a target, from what is cached for the thread. -/
def exitParams (idx : ℕ) (fi : FuncInfo) : Option EntryData → List Text
  | some ed => if ed.idx = idx then formatParams fi.paramTypes ed.args fi.hasThis ed.strVals else []
  | none => []

/-- The event of an exit of a target. -/
def exitEvent (raw : RawEvent) (idx : ℕ) (fi : FuncInfo) (cached : Option EntryData) :
    WatchEvent where
  timestampNs := raw.timestampNs
  durationNs := raw.durationNs
  funcName := fi.name
  params := exitParams idx fi cached
  retValue := formatIntVal raw.retVal fi.returnType

/-- The callback of a poll. -/
def callback (s : WatchState) (d : Delivery) : WatchState :=
  if d.1.isExit = false then
    match w.target d.1.funcAddr with
    | none => s
    | some (idx, fi) =>
      { s with entryCache := s.entryCache.insert d.1.tid (entryData d idx fi) }
  else if (s.events.length : ℤ) ≥ w.maxEvents then s
  else
    match w.target d.1.funcAddr with
    | none => s
    | some (idx, fi) =>
      { entryCache :=
          match s.entryCache.lookup d.1.tid with
          | some ed => if ed.idx = idx then s.entryCache.erase d.1.tid else s.entryCache
          | none => s.entryCache
        events := s.events ++ [exitEvent d.1 idx fi (s.entryCache.lookup d.1.tid)] }

/-- What the environment answers during one iteration of the loop. -/
structure Poll where
  stopFlag : Bool
  now : ℤ
  /-- The records that the poll delivers. -/
  records : List Delivery

/-- The loop of polls. -/
def loop (deadline : ℤ) : List Poll → WatchState → WatchState
  | [], s => s
  | p :: polls, s =>
    if ¬ (s.events.length : ℤ) < w.maxEvents then s
    else if p.stopFlag then s
    else if deadline ≤ p.now then s
    else loop deadline polls (p.records.foldl w.callback s)

end Watch

end Uatu
