import Uatu.Ebpf.Probe

/-!
# `watch.bpf.c`

The programs behind `watch`: each hit of a probe submits one record, an exit with the time since
the entry that the thread has in `entry_times`.
-/

namespace Uatu

/-- `struct watch_event`, which user space reads as a `RawEvent`. -/
structure RawEvent where
  timestampNs : Word
  durationNs : Word
  args : Fin 6 → Word
  retVal : Word
  funcAddr : Addr
  tid : Tid
  isExit : Bool

namespace WatchBpf

/-- `uprobe_entry`. -/
def uprobeEntry (ctx : Hit) (entryTimes : EntryTimes) : EntryTimes × Option RawEvent :=
  let entryTimes := entryTimes.update ctx.tid ctx.ktime
  if ctx.reserved then
    (entryTimes, some {
      timestampNs := ctx.ktime
      durationNs := 0
      args := ctx.parm
      retVal := 0
      funcAddr := ctx.funcIp
      tid := ctx.tid
      isExit := false })
  else (entryTimes, none)

/-- `uprobe_exit`. -/
def uprobeExit (ctx : Hit) (entryTimes : EntryTimes) : EntryTimes × Option RawEvent :=
  let entryTs := entryTimes.lookup ctx.tid
  if ctx.reserved then
    (entryTimes.delete ctx.tid, some {
      timestampNs := ctx.ktime
      durationNs := entryTs.elim 0 (ctx.ktime - ·)
      args := fun _ => 0
      retVal := ctx.rc
      funcAddr := ctx.funcIp
      tid := ctx.tid
      isExit := true })
  else (entryTimes.delete ctx.tid, none)

end WatchBpf

/-- The object of `watch.bpf.c`. -/
def watchBpf : BpfObject EntryTimes RawEvent where
  init := .empty
  step entryTimes h :=
    match h.probe with
    | .uprobe => WatchBpf.uprobeEntry h entryTimes
    | .uretprobe => WatchBpf.uprobeExit h entryTimes

end Uatu
