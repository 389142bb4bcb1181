import Uatu.Ebpf.Trace
import Uatu.Ebpf.Watch

/-!
# The time between entry and exit

Both objects keep one time for each thread: an entry overwrites it and an exit deletes it, so what
is there tells of the last hit of the thread only (`Stamping.lookup_run`). An exit therefore finds
the time of its own entry when the two are neighbours among the hits of their thread, and nothing
when a probed call lies between them.
-/

namespace Uatu

open Nesting

/-- An object whose entries set `entry_times`, and whose exits delete from it and submit, if they
can, the time since what is there. -/
structure Stamping {σ ε : Type} (obj : BpfObject σ ε) where
  times : σ → EntryTimes
  duration : ε → Word
  init : times obj.init = .empty
  entry : ∀ s h, h.probe = .uprobe → times (obj.step s h).1 = (times s).update h.tid h.ktime
  exit : ∀ s h, h.probe = .uretprobe → times (obj.step s h).1 = (times s).delete h.tid
  submit : ∀ s h, h.probe = .uretprobe → h.reserved = true → ∃ r, (obj.step s h).2 = some r ∧
    duration r = ((times s).lookup h.tid).elim 0 (h.ktime - ·)

/-- `watch.bpf.c` is such an object. -/
def WatchBpf.stamping : Stamping watchBpf where
  times := id
  duration := RawEvent.durationNs
  init := rfl
  entry s h hp := by simp only [watchBpf, hp, WatchBpf.uprobeEntry]; split_ifs <;> rfl
  exit s h hp := by simp only [watchBpf, hp, WatchBpf.uprobeExit]; split_ifs <;> rfl
  submit s h hp hr := by simp [watchBpf, hp, WatchBpf.uprobeExit, hr]

/-- So is `trace.bpf.c`. -/
def TraceBpf.stamping : Stamping traceBpf where
  times := TraceBpf.Maps.entryTimes
  duration := TraceEvent.durationNs
  init := rfl
  entry s h hp := by simp only [traceBpf, hp, TraceBpf.traceEntry]; split_ifs <;> rfl
  exit s h hp := by simp only [traceBpf, hp, TraceBpf.traceExit]; split_ifs <;> rfl
  submit s h hp hr := by simp [traceBpf, hp, TraceBpf.traceExit, hr]

/-- The threads of a run find room in the maps. -/
def FewThreads (l : List Hit) : Prop :=
  ∃ threads : List Tid, threads.length ≤ maxEntries ∧ ∀ h ∈ l, h.tid ∈ threads

/-- What a hit leaves for the next of its thread. -/
def Hit.stamp (h : Hit) : Option Word := if h.probe = .uprobe then some h.ktime else none

namespace Stamping

variable {σ ε : Type} {obj : BpfObject σ ε} (P : Stamping obj) {l : List Hit} {t : Tid}

/-- The times are those of the threads' own. -/
theorem ownEntry : obj.OwnEntry P.times where
  init := P.init
  step s h := by
    cases hp : h.probe with
    | uprobe => exact .inl ⟨h.ktime, P.entry s h hp⟩
    | uretprobe => exact .inr (P.exit s h hp)

/-- **What a thread has in `entry_times`** is what its last hit has left. -/
theorem lookup_run (hl : FewThreads l) :
    (P.times (obj.state l)).lookup t = ((hitsOf t l).getLast?).bind Hit.stamp := by
  obtain ⟨threads, hlen, hmem⟩ := hl
  induction l using List.reverseRecOn with
  | nil =>
    rw [BpfObject.state, List.foldl_nil, P.init]
    exact BoundedMap.lookup_empty
  | append_singleton l h ih =>
    have hmem' : ∀ x ∈ l, x.tid ∈ threads := fun x hx => hmem x (List.mem_append_left _ hx)
    have ih := ih hmem'
    by_cases ht : h.tid = t
    · have hlast : (hitsOf t (l ++ [h])).getLast? = some h := by simp [hitsOf, ht]
      rw [hlast, Option.bind_some, Hit.stamp, obj.state_concat]
      cases hp : h.probe with
      | uprobe =>
        rw [P.entry _ _ hp, if_pos rfl, ← ht]
        exact BoundedMap.lookup_update_self (P.ownEntry.keys_subset hmem') (hmem h (by simp)) hlen
      | uretprobe =>
        rw [P.exit _ _ hp, if_neg (by decide), ← ht]
        exact BoundedMap.lookup_delete_self
    · have hlast : hitsOf t (l ++ [h]) = hitsOf t l := by simp [hitsOf, ht]
      rw [hlast, ← ih]
      exact P.ownEntry.lookup_of_ne ht

/-- The exit of a call finds the time of its entry if no probed call lies between them, and nothing
otherwise. -/
theorem lookup_exit {pre mid : List Hit} {x y : Hit} (hl : FewThreads (pre ++ x :: mid))
    (h : Invocation x mid y) :
    (P.times (obj.state (pre ++ x :: mid))).lookup y.tid =
      if hitsOf x.tid mid = [] then some x.ktime else none := by
  have hx : x.probe = .uprobe := by simpa [probedCalls] using h.opens
  rw [P.lookup_run hl, h.same]
  have hhits : hitsOf x.tid (pre ++ x :: mid) = hitsOf x.tid pre ++ x :: hitsOf x.tid mid := by
    simp [hitsOf]
  rw [hhits, List.getLast?_append_of_ne_nil _ (by simp)]
  cases hmid : hitsOf x.tid mid with
  | nil => simp [Hit.stamp, hx]
  | cons z zs =>
    obtain ⟨w, hw⟩ : ∃ w, (z :: zs).getLast? = some w :=
      ⟨_, List.getLast?_eq_some_getLast (by simp)⟩
    have hcloses : probedCalls.opens w = false := by
      refine h.nested.closes_last w ?_
      change w ∈ (hitsOf x.tid mid).getLast?
      rw [hmid]
      exact hw
    rw [List.getLast?_cons_cons, hw, if_neg (by simp), Option.bind_some, Hit.stamp, if_neg]
    simpa [probedCalls] using hcloses

/-- **The duration of a call**: its exit submits a record, and the duration there is the time since
the entry of the call exactly if no probed call lies between them or the two times agree. -/
theorem duration_iff {pre mid post : List Hit} {x y : Hit} (hl : FewThreads (pre ++ x :: mid))
    (h : Invocation x mid y) (hr : y.reserved = true) :
    ∃ r after, obj.submitted (pre ++ x :: mid ++ y :: post) =
        obj.submitted (pre ++ x :: mid) ++ r :: after ∧
      (obj.step (obj.state (pre ++ x :: mid)) y).2 = some r ∧
      (P.duration r = y.ktime - x.ktime ↔ hitsOf x.tid mid = [] ∨ y.ktime = x.ktime) := by
  have hy : y.probe = .uretprobe := by
    cases hp : y.probe with
    | uprobe => simpa [probedCalls, hp] using h.closes
    | uretprobe => rfl
  obtain ⟨r, hsubmit, hduration⟩ := P.submit (obj.state (pre ++ x :: mid)) y hy hr
  obtain ⟨after, hafter⟩ := obj.submitted_append_cons post hsubmit
  refine ⟨r, after, hafter, hsubmit, ?_⟩
  rw [hduration, P.lookup_exit hl h]
  split_ifs with hmid
  · simp [hmid]
  · simp only [hmid, false_or, Option.elim_none]
    exact eq_comm.trans sub_eq_zero

end Stamping

/-- **The durations of `watch` and `trace`**: each object submits the time between the entry and
the exit of one call exactly if no probed call lies between them on the thread, or no time does. -/
theorem durations_iff {pre mid post : List Hit} {x y : Hit} (hl : FewThreads (pre ++ x :: mid))
    (h : Invocation x mid y) (hr : y.reserved = true) :
    (∃ ev after, watchBpf.submitted (pre ++ x :: mid ++ y :: post) =
        watchBpf.submitted (pre ++ x :: mid) ++ ev :: after ∧
      (watchBpf.step (watchBpf.state (pre ++ x :: mid)) y).2 = some ev ∧
      (ev.durationNs = y.ktime - x.ktime ↔ hitsOf x.tid mid = [] ∨ y.ktime = x.ktime)) ∧
    ∃ ev after, traceBpf.submitted (pre ++ x :: mid ++ y :: post) =
        traceBpf.submitted (pre ++ x :: mid) ++ ev :: after ∧
      (traceBpf.step (traceBpf.state (pre ++ x :: mid)) y).2 = some ev ∧
      (ev.durationNs = y.ktime - x.ktime ↔ hitsOf x.tid mid = [] ∨ y.ktime = x.ktime) :=
  ⟨WatchBpf.stamping.duration_iff hl h hr, TraceBpf.stamping.duration_iff hl h hr⟩

/-! ## One function calls another -/

/-- A hit of thread `1`. -/
def Hit.single (probe : Probe) (funcIp : Addr) (ktime : Word) : Hit :=
  ⟨probe, 1, ktime, funcIp, fun _ => 0, 0, true⟩

/-- A call of the function at `funcIp`, with nothing between its ends. -/
def Hit.leaf (funcIp : Addr) (start stop : Word) : List Hit :=
  [.single .uprobe funcIp start, .single .uretprobe funcIp stop]

/-- A call in which these hits lie is one. -/
theorem invocation_single {f : Addr} {a b : Word} {mid : List Hit}
    (h : Balanced probedCalls (hitsOf 1 mid)) :
    Invocation (Hit.single .uprobe f a) mid (Hit.single .uretprobe f b) :=
  ⟨rfl, rfl, rfl, rfl, h⟩

theorem balanced_leaf {f : Addr} {a b : Word} :
    Balanced probedCalls (hitsOf 1 (Hit.leaf f a b)) :=
  show Balanced probedCalls (Hit.single .uprobe f a :: ([] ++ Hit.single .uretprobe f b :: [])) from
    .call rfl rfl rfl .nil .nil

theorem durations_iff_leaf :
    ∃ ev ∈ watchBpf.submitted (Hit.leaf 0x1000 1 5), ev.durationNs = 4 := by
  obtain ⟨⟨ev, after, hsub, -, hiff⟩, -⟩ := @durations_iff [] [] [] (.single .uprobe 0x1000 1)
    (.single .uretprobe 0x1000 5) ⟨[1], by decide, by simp [Hit.single, Hit.tid]⟩
    (invocation_single .nil) rfl
  refine ⟨ev, ?_, hiff.2 (.inl rfl)⟩
  exact hsub ▸ List.mem_append_right _ (List.mem_cons_self ..)

/-- The exit of a function that has called another is given the duration `0`. -/
theorem durations_lost :
    let mid := Hit.leaf 0x2000 2 3
    let l := Hit.single .uprobe 0x1000 1 :: mid ++ [Hit.single .uretprobe 0x1000 5]
    Invocation (Hit.single .uprobe 0x1000 1) mid (Hit.single .uretprobe 0x1000 5) ∧
    (∃ ev ∈ watchBpf.submitted l, ev.isExit = true ∧ ev.timestampNs = 5 ∧ ev.durationNs ≠ 5 - 1) ∧
    ∃ ev ∈ traceBpf.submitted l, ev.isExit = true ∧ ev.timestampNs = 5 ∧ ev.durationNs ≠ 5 - 1 :=
  ⟨invocation_single balanced_leaf, by decide, by decide⟩

end Uatu
