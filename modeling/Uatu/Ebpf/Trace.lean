import Uatu.Ebpf.Probe

/-!
# `trace.bpf.c`

The programs of the tracing object: as in `watch.bpf.c`, with the depth of the calls of each thread
in a second map.
-/

namespace Uatu

/-- `struct trace_event`. -/
structure TraceEvent where
  timestampNs : Word
  durationNs : Word
  tid : Tid
  depth : BitVec 32
  isExit : Bool

namespace TraceBpf

/-- The hash maps of the object. -/
structure Maps where
  callDepth : BoundedMap Tid (BitVec 32) maxEntries
  entryTimes : EntryTimes

/-- `trace_entry`. -/
def traceEntry (ctx : Hit) (maps : Maps) : Maps × Option TraceEvent :=
  let depth := (maps.callDepth.lookup ctx.tid).elim 0 (· + 1)
  let maps : Maps :=
    { callDepth := maps.callDepth.update ctx.tid depth
      entryTimes := maps.entryTimes.update ctx.tid ctx.ktime }
  if ctx.reserved then
    (maps, some {
      timestampNs := ctx.ktime
      durationNs := 0
      tid := ctx.tid
      depth
      isExit := false })
  else (maps, none)

/-- `trace_exit`. -/
def traceExit (ctx : Hit) (maps : Maps) : Maps × Option TraceEvent :=
  let entryTs := maps.entryTimes.lookup ctx.tid
  let depth := (maps.callDepth.lookup ctx.tid).getD 0
  let maps : Maps :=
    { callDepth :=
        if depth > 0 then maps.callDepth.update ctx.tid (depth - 1)
        else maps.callDepth.delete ctx.tid
      entryTimes := maps.entryTimes.delete ctx.tid }
  if ctx.reserved then
    (maps, some {
      timestampNs := ctx.ktime
      durationNs := entryTs.elim 0 (ctx.ktime - ·)
      tid := ctx.tid
      depth
      isExit := true })
  else (maps, none)

end TraceBpf

/-- The object of `trace.bpf.c`. -/
def traceBpf : BpfObject TraceBpf.Maps TraceEvent where
  init := ⟨.empty, .empty⟩
  step maps h :=
    match h.probe with
    | .uprobe => TraceBpf.traceEntry h maps
    | .uretprobe => TraceBpf.traceExit h maps

end Uatu
