import Uatu.Ebpf.Watch
import Uatu.Foundations.Structs
import Mathlib.Tactic.FinCases

/-!
# Records in the ring buffer

`struct watch_event` of `watch.bpf.c` is filled in memory that `bpf_ringbuf_reserve` returns with
whatever it held, and `UprobeLoader::Impl::on_event` reads that memory as a `RawEvent`, a struct
that another file declares. For every run of the probes and every content of the ring buffer it
reads the events of `watchBpf` (`onEvent_records`).
-/

namespace Uatu

open LittleEndian Structs

/-! ## The struct -/

/-- The members of `struct watch_event`. -/
def watchEventMembers : List Member :=
  [uint64, uint64, uint64.array 6, uint64, uint64, uint32, uint8]

/-- The members of `RawEvent` in `include/uatu/ebpf/uprobe_loader.h`. -/
def rawEventMembers : List Member :=
  [uint64, uint64, uint64.array 6, uint64, uint64, uint32, uint8]

namespace WatchEventField

def timestampNs : ℕ := offset watchEventMembers 0

def durationNs : ℕ := offset watchEventMembers 1

def args : ℕ := offset watchEventMembers 2

def retVal : ℕ := offset watchEventMembers 3

def funcAddr : ℕ := offset watchEventMembers 4

def tid : ℕ := offset watchEventMembers 5

def isExit : ℕ := offset watchEventMembers 6

end WatchEventField

/-- What `bpf_ringbuf_reserve` returns: `sizeof(struct watch_event)` bytes. -/
structure Reserved where
  bytes : List Byte
  length_bytes : bytes.length = structSize watchEventMembers

namespace WatchBpf

open WatchEventField

/-- `ev->args[i]`. -/
def argWrite (args : Fin 6 → Word) (i : Fin 6) : Write :=
  ⟨WatchEventField.args + 8 * i, put (args i)⟩

/-- The assignments to `*ev` in `uprobe_entry`. -/
def entryWrites (ctx : Hit) : List Write :=
  [⟨timestampNs, put ctx.ktime⟩, ⟨durationNs, put (0 : Word)⟩, ⟨WatchEventField.tid, put ctx.tid⟩,
    ⟨isExit, put (0 : BitVec 8)⟩, ⟨funcAddr, put ctx.funcIp⟩, argWrite ctx.parm 0,
    argWrite ctx.parm 1, argWrite ctx.parm 2, argWrite ctx.parm 3, argWrite ctx.parm 4,
    argWrite ctx.parm 5, ⟨retVal, put (0 : Word)⟩]

/-- `uprobe_entry`, with the bytes that it submits. -/
def uprobeEntryBytes (ctx : Hit) (ev : Reserved) (entryTimes : EntryTimes) :
    EntryTimes × Option (List Byte) :=
  let entryTimes := entryTimes.update ctx.tid ctx.ktime
  if ctx.reserved then (entryTimes, some (write (entryWrites ctx) ev.bytes))
  else (entryTimes, none)

/-- The assignments to `*ev` in `uprobe_exit`. -/
def exitWrites (ctx : Hit) (entryTs : Option Word) : List Write :=
  [⟨timestampNs, put ctx.ktime⟩, ⟨durationNs, put (entryTs.elim 0 (ctx.ktime - ·))⟩,
    ⟨WatchEventField.tid, put ctx.tid⟩, ⟨isExit, put (1 : BitVec 8)⟩, ⟨funcAddr, put ctx.funcIp⟩,
    ⟨retVal, put ctx.rc⟩, ⟨args, List.replicate (uint64.array 6).size 0⟩]

/-- `uprobe_exit`, with the bytes that it submits. -/
def uprobeExitBytes (ctx : Hit) (ev : Reserved) (entryTimes : EntryTimes) :
    EntryTimes × Option (List Byte) :=
  let entryTs := entryTimes.lookup ctx.tid
  if ctx.reserved then
    (entryTimes.delete ctx.tid, some (write (exitWrites ctx entryTs) ev.bytes))
  else (entryTimes.delete ctx.tid, none)

end WatchBpf

/-- A hit of a probe, with the memory that a record would be put into. -/
def watchBytesStep (entryTimes : EntryTimes) (h : Hit) (ev : Reserved) :
    EntryTimes × Option (List Byte) :=
  match h.probe with
  | .uprobe => WatchBpf.uprobeEntryBytes h ev entryTimes
  | .uretprobe => WatchBpf.uprobeExitBytes h ev entryTimes

/-- The records of a run, from a state of the maps on. -/
def recordsFrom : EntryTimes → List (Hit × Reserved) → List (List Byte)
  | _, [] => []
  | s, (h, ev) :: l =>
    (watchBytesStep s h ev).2.toList ++ recordsFrom (watchBytesStep s h ev).1 l

/-- The records of a run. -/
def records (l : List (Hit × Reserved)) : List (List Byte) := recordsFrom watchBpf.init l

/-! ## Reading them -/

/-- `*static_cast<const RawEvent*>(data)`. -/
def RawEvent.ofBytes (data : List Byte) : RawEvent where
  timestampNs := word 64 data (offset rawEventMembers 0)
  durationNs := word 64 data (offset rawEventMembers 1)
  args i := word 64 data (offset rawEventMembers 2 + 8 * i)
  retVal := word 64 data (offset rawEventMembers 3)
  funcAddr := word 64 data (offset rawEventMembers 4)
  tid := word 32 data (offset rawEventMembers 5)
  isExit := word 8 data (offset rawEventMembers 6) != 0

/-- `on_event`: the event that the callback gets, if it gets one. -/
def onEvent (data : List Byte) : Option RawEvent :=
  if data.length < structSize rawEventMembers then none else some (.ofBytes data)

/-! ## What is read is what was written -/

namespace WatchBpf

open WatchEventField

variable {ctx : Hit} {entryTs : Option Word} {ev : Reserved} {ws : List Write}

/-- The assignments stay within the struct and do not overlap. -/
structure Fits (ws : List Write) : Prop where
  within : ∀ x ∈ ws.map Write.extent, x.1 + x.2 ≤ structSize watchEventMembers
  apart : (ws.map Write.extent).Pairwise Apart

theorem fits_entryWrites : Fits (entryWrites ctx) := by
  have hextents : (entryWrites ctx).map Write.extent =
      [(0, 8), (8, 8), (80, 4), (84, 1), (72, 8), (16, 8), (24, 8), (32, 8), (40, 8), (48, 8),
        (56, 8), (64, 8)] := by
    simp only [entryWrites, argWrite, List.map_cons, List.map_nil, Write.extent, length_put]
    rfl
  constructor <;> rw [hextents] <;> decide

theorem fits_exitWrites : Fits (exitWrites ctx entryTs) := by
  have hextents : (exitWrites ctx entryTs).map Write.extent =
      [(0, 8), (8, 8), (80, 4), (84, 1), (72, 8), (64, 8), (16, 48)] := by
    simp only [exitWrites, List.map_cons, List.map_nil, Write.extent, length_put,
      List.length_replicate]
    rfl
  constructor <;> rw [hextents] <;> decide

theorem Fits.within_bytes (h : Fits ws) (ev : Reserved) :
    ∀ w ∈ ws, w.off + w.bytes.length ≤ ev.bytes.length := by
  intro w hw
  rw [ev.length_bytes]
  exact h.within _ (List.mem_map_of_mem hw)

/-- A field that is assigned is read. -/
theorem Fits.word {off v : ℕ} {x : BitVec v} (h : Fits ws) (hv : 8 ∣ v) (ev : Reserved)
    (hw : ⟨off, put x⟩ ∈ ws) : LittleEndian.word v (write ws ev.bytes) off = x :=
  word_write hv (h.within_bytes ev) h.apart hw

/-- A record has the length that `on_event` asks for. -/
theorem onEvent_write (h : Fits ws) (ev : Reserved) :
    onEvent (write ws ev.bytes) = some (.ofBytes (write ws ev.bytes)) := by
  rw [onEvent, length_write (h.within_bytes ev), ev.length_bytes]
  exact if_neg (lt_irrefl _)

theorem argWrite_mem (i : Fin 6) : argWrite ctx.parm i ∈ entryWrites ctx := by
  refine List.mem_of_getElem? (i := 5 + i) ?_
  fin_cases i <;> rfl

theorem ofBytes_entryWrites (ctx : Hit) (ev : Reserved) :
    RawEvent.ofBytes (write (entryWrites ctx) ev.bytes) =
      ⟨ctx.ktime, 0, ctx.parm, 0, ctx.funcIp, ctx.tid, false⟩ := by
  have hfits : Fits (entryWrites ctx) := fits_entryWrites
  have hexit : word 8 (write (entryWrites ctx) ev.bytes) (offset rawEventMembers 6) = 0 :=
    hfits.word (by decide) ev (List.mem_of_getElem? (i := 3) rfl)
  rw [RawEvent.ofBytes, RawEvent.mk.injEq]
  refine ⟨?_, ?_, funext fun i => hfits.word (by decide) ev (argWrite_mem i), ?_, ?_, ?_, ?_⟩
  · exact hfits.word (by decide) ev (List.mem_of_getElem? (i := 0) rfl)
  · exact hfits.word (by decide) ev (List.mem_of_getElem? (i := 1) rfl)
  · exact hfits.word (by decide) ev (List.mem_of_getElem? (i := 11) rfl)
  · exact hfits.word (by decide) ev (List.mem_of_getElem? (i := 4) rfl)
  · exact hfits.word (by decide) ev (List.mem_of_getElem? (i := 2) rfl)
  · rw [hexit]
    rfl

theorem ofBytes_exitWrites (ctx : Hit) (entryTs : Option Word) (ev : Reserved) :
    RawEvent.ofBytes (write (exitWrites ctx entryTs) ev.bytes) =
      ⟨ctx.ktime, entryTs.elim 0 (ctx.ktime - ·), fun _ => 0, ctx.rc, ctx.funcIp, ctx.tid,
        true⟩ := by
  have hfits : Fits (exitWrites ctx entryTs) := fits_exitWrites
  have hexit : word 8 (write (exitWrites ctx entryTs) ev.bytes) (offset rawEventMembers 6) = 1 :=
    hfits.word (by decide) ev (List.mem_of_getElem? (i := 3) rfl)
  rw [RawEvent.ofBytes, RawEvent.mk.injEq]
  refine ⟨?_, ?_, funext fun i => ?_, ?_, ?_, ?_, ?_⟩
  · exact hfits.word (by decide) ev (List.mem_of_getElem? (i := 0) rfl)
  · exact hfits.word (by decide) ev (List.mem_of_getElem? (i := 1) rfl)
  · have hwithin : 8 * (i : ℕ) + 64 / 8 ≤ (uint64.array 6).size := by
      have hi := i.isLt
      change 8 * (i : ℕ) + 8 ≤ 48
      omega
    exact word_write_zeros (hfits.within_bytes ev) hfits.apart
      (List.mem_of_getElem? (i := 6) rfl) hwithin
  · exact hfits.word (by decide) ev (List.mem_of_getElem? (i := 5) rfl)
  · exact hfits.word (by decide) ev (List.mem_of_getElem? (i := 4) rfl)
  · exact hfits.word (by decide) ev (List.mem_of_getElem? (i := 2) rfl)
  · rw [hexit]
    rfl

end WatchBpf

/-- A hit changes the maps as `watchBpf` has it, and its record is read as the event. -/
theorem watchBytesStep_eq (s : EntryTimes) (h : Hit) (ev : Reserved) :
    (watchBytesStep s h ev).1 = (watchBpf.step s h).1 ∧
      (watchBytesStep s h ev).2.bind onEvent = (watchBpf.step s h).2 := by
  unfold watchBytesStep watchBpf
  dsimp only
  cases h.probe with
  | uprobe =>
    simp only [WatchBpf.uprobeEntryBytes, WatchBpf.uprobeEntry]
    split_ifs
    · refine ⟨rfl, ?_⟩
      rw [Option.bind_some, WatchBpf.onEvent_write WatchBpf.fits_entryWrites,
        WatchBpf.ofBytes_entryWrites]
    · exact ⟨rfl, rfl⟩
  | uretprobe =>
    simp only [WatchBpf.uprobeExitBytes, WatchBpf.uprobeExit]
    split_ifs
    · refine ⟨rfl, ?_⟩
      rw [Option.bind_some, WatchBpf.onEvent_write WatchBpf.fits_exitWrites,
        WatchBpf.ofBytes_exitWrites]
    · exact ⟨rfl, rfl⟩

theorem onEvent_recordsFrom (s : EntryTimes) (l : List (Hit × Reserved)) :
    (recordsFrom s l).filterMap onEvent = watchBpf.submittedFrom s (l.map Prod.fst) := by
  induction l generalizing s with
  | nil => rfl
  | cons x l ih =>
    obtain ⟨h, ev⟩ := x
    obtain ⟨hmaps, hevent⟩ := watchBytesStep_eq s h ev
    rw [recordsFrom, List.filterMap_append, ih, List.map_cons, BpfObject.submittedFrom, hmaps,
      ← hevent]
    cases (watchBytesStep s h ev).2 with
    | none => rfl
    | some data =>
      rw [Option.toList_some, Option.bind_some, List.filterMap_cons]
      cases onEvent data <;> rfl

/-- **The bytes in the ring buffer are read as the events**, in every run of the probes and whatever
the ring buffer held before. -/
theorem onEvent_records (l : List (Hit × Reserved)) :
    (records l).filterMap onEvent = watchBpf.submitted (l.map Prod.fst) :=
  onEvent_recordsFrom _ l

end Uatu
