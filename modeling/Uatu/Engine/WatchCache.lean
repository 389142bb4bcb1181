import Uatu.Engine.Watch

/-!
# What the callback has cached

From the hits of the probes to the cache of the callback. `Watch.handle` is what the callback has
made of the records of a run, and `Watch.cached` follows the one entry that it keeps for a thread:
the records of other threads do not matter (`lookup_handle`).
-/

namespace Uatu

open Nesting

/-- A hit, and the memory of the process when its record is handled. -/
abbrev Observation := Hit × ProcMem

/-- The records of a run, from a state of the maps on. -/
def deliveriesFrom : EntryTimes → List Observation → List Delivery
  | _, [] => []
  | s, o :: l => ((watchBpf.step s o.1).2.map (·, o.2)).toList ++
      deliveriesFrom (watchBpf.step s o.1).1 l

/-- The records of a run, each with the memory when it is handled. -/
def deliveries (l : List Observation) : List Delivery := deliveriesFrom watchBpf.init l

/-- The record that a hit submits, if it does. -/
def recordOf (l : List Observation) (o : Observation) : Option RawEvent :=
  (watchBpf.step (watchBpf.state (l.map Prod.fst)) o.1).2

theorem deliveriesFrom_append {s : EntryTimes} {l l' : List Observation} :
    deliveriesFrom s (l ++ l') = deliveriesFrom s l ++
      deliveriesFrom ((l.map Prod.fst).foldl (fun s h => (watchBpf.step s h).1) s) l' := by
  induction l generalizing s with
  | nil => rfl
  | cons o l ih =>
    rw [List.cons_append, deliveriesFrom, ih, deliveriesFrom, List.append_assoc]
    rfl

theorem deliveries_concat {l : List Observation} {o : Observation} :
    deliveries (l ++ [o]) = deliveries l ++ ((recordOf l o).map (·, o.2)).toList := by
  rw [deliveries, deliveriesFrom_append, deliveriesFrom, deliveriesFrom, List.append_nil]
  rfl

/-- What a record says of its hit. -/
structure Records (h : Hit) (r : RawEvent) : Prop where
  tid : r.tid = h.tid
  funcAddr : r.funcAddr = h.funcIp
  timestamp : r.timestampNs = h.ktime
  isExit : r.isExit = true ↔ h.probe = .uretprobe
  args : h.probe = .uprobe → r.args = h.parm
  retVal : h.probe = .uretprobe → r.retVal = h.rc

variable {l : List Observation} {o : Observation}

theorem recordOf_lost (h : o.1.reserved = false) : recordOf l o = none := by
  cases hp : o.1.probe <;>
    simp [recordOf, watchBpf, hp, WatchBpf.uprobeEntry, WatchBpf.uprobeExit, h]

theorem recordOf_kept (h : o.1.reserved = true) : ∃ r, recordOf l o = some r ∧ Records o.1 r := by
  cases hp : o.1.probe with
  | uprobe =>
    refine ⟨_, by simp only [recordOf, watchBpf, hp, WatchBpf.uprobeEntry, h, if_true]; rfl, ?_⟩
    exact ⟨rfl, rfl, rfl, by simp [hp], fun _ => rfl, by simp [hp]⟩
  | uretprobe =>
    refine ⟨_, by simp only [recordOf, watchBpf, hp, WatchBpf.uprobeExit, h, if_true]; rfl, ?_⟩
    exact ⟨rfl, rfl, rfl, by simp [hp], by simp [hp], fun _ => rfl⟩

namespace Watch

variable (w : Watch)

/-- What the callback has made of the records of a run. -/
def handle (l : List Observation) : WatchState := (deliveries l).foldl w.callback start

/-- What is cached for a thread after one more of its hits. -/
def cacheStep (slot : Option EntryData) (o : Observation) : Option EntryData :=
  if o.1.reserved = false then slot
  else
    match w.target o.1.funcIp with
    | none => slot
    | some (idx, fi) =>
      match o.1.probe with
      | .uprobe => some ⟨o.1.parm, idx, resolveStrs o.2 o.1.parm fi⟩
      | .uretprobe => slot.filter (·.idx ≠ idx)

/-- What is cached for a thread after these hits of it. -/
def cached (l : List Observation) : Option EntryData := l.foldl w.cacheStep none

/-- The hits of a thread in a run. -/
def observationsOf (t : Tid) (l : List Observation) : List Observation :=
  l.filter fun o => o.1.tid = t

variable {w}

theorem handle_lost (h : o.1.reserved = false) : w.handle (l ++ [o]) = w.handle l := by
  simp [handle, deliveries_concat, recordOf_lost h]

theorem handle_kept {r : RawEvent} (h : recordOf l o = some r) :
    w.handle (l ++ [o]) = w.callback (w.handle l) (r, o.2) := by
  simp [handle, deliveries_concat, h]

/-- The callback only adds events. -/
theorem events_callback (s : WatchState) (d : Delivery) : s.events <+: (w.callback s d).events := by
  unfold callback
  split_ifs
  · split <;> exact List.prefix_refl _
  · exact List.prefix_refl _
  · split
    · exact List.prefix_refl _
    · exact List.prefix_append _ _

theorem events_foldl (s : WatchState) (ds : List Delivery) :
    s.events <+: (ds.foldl w.callback s).events := by
  induction ds generalizing s with
  | nil => exact List.prefix_refl _
  | cons d ds ih => exact (events_callback s d).trans (ih _)

theorem events_handle (l l' : List Observation) :
    (w.handle l).events <+: (w.handle (l ++ l')).events := by
  have h : ∃ ds, deliveries (l ++ l') = deliveries l ++ ds := ⟨_, deliveriesFrom_append⟩
  obtain ⟨ds, hds⟩ := h
  rw [handle, handle, hds, List.foldl_append]
  exact events_foldl _ _

/-- The callback leaves the cache of other threads alone. -/
theorem lookup_callback_of_ne {s : WatchState} {d : Delivery} {t : Tid} (h : t ≠ d.1.tid) :
    (w.callback s d).entryCache.lookup t = s.entryCache.lookup t := by
  unfold callback
  split_ifs
  · split
    · rfl
    · exact AList.lookup_insert_ne h
  · rfl
  · split
    · rfl
    · dsimp only
      split
      · split_ifs
        · exact AList.lookup_erase_ne h
        · rfl
      · rfl

/-- What a record does to the cache of its thread. -/
theorem lookup_callback {s : WatchState} {r : RawEvent} (hr : o.1.reserved = true)
    (h : Records o.1 r) (hmax : (s.events.length : ℤ) < w.maxEvents) :
    (w.callback s (r, o.2)).entryCache.lookup o.1.tid =
      w.cacheStep (s.entryCache.lookup o.1.tid) o := by
  rw [cacheStep, if_neg (by simp [hr])]
  cases hp : o.1.probe with
  | uprobe =>
    have hexit : r.isExit = false := by simpa [hp] using h.isExit
    rw [callback, if_pos hexit, h.funcAddr]
    cases w.target o.1.funcIp with
    | none => rfl
    | some p => simp only [h.tid, AList.lookup_insert, entryData, h.args hp]
  | uretprobe =>
    have hexit : r.isExit ≠ false := by simp [h.isExit.2 hp]
    rw [callback, if_neg hexit, if_neg (not_le.2 hmax), h.funcAddr]
    cases w.target o.1.funcIp with
    | none => rfl
    | some p =>
      rw [← h.tid]
      cases hl : s.entryCache.lookup r.tid with
      | none => simp [hl]
      | some ed => by_cases hidx : ed.idx = p.1 <;> simp [hidx, hl, Option.filter]

/-- **What the callback has cached for a thread** depends on the hits of the thread only. -/
theorem lookup_handle {t : Tid} (hmax : ((w.handle l).events.length : ℤ) < w.maxEvents) :
    (w.handle l).entryCache.lookup t = w.cached (observationsOf t l) := by
  induction l using List.reverseRecOn with
  | nil => exact AList.lookup_empty t
  | append_singleton l o ih =>
    have hle : ((w.handle l).events.length : ℤ) < w.maxEvents :=
      lt_of_le_of_lt (by exact_mod_cast (events_handle l [o]).length_le) hmax
    have ih := ih hle
    have hobs : observationsOf t (l ++ [o]) =
        observationsOf t l ++ if o.1.tid = t then [o] else [] := by
      by_cases ht : o.1.tid = t <;> simp [observationsOf, ht]
    cases hr : o.1.reserved with
    | false =>
      rw [handle_lost hr, ih, hobs]
      split_ifs <;> simp [cached, cacheStep, hr]
    | true =>
      obtain ⟨r, hrec, hrecords⟩ := recordOf_kept (l := l) hr
      rw [handle_kept hrec, hobs]
      by_cases ht : o.1.tid = t
      · subst ht
        rw [lookup_callback hr hrecords hle, ih, if_pos rfl]
        simp [cached]
      · rw [lookup_callback_of_ne (by rw [hrecords.tid]; exact Ne.symm ht), ih, if_neg ht,
          List.append_nil]

end Watch

end Uatu
