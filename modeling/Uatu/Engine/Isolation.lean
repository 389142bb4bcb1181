import Uatu.Ebpf.Durations
import Uatu.Engine.Attribution

/-!
# Threads do not see each other

All threads share the map of the kernel's programs and the cache of the callback. The events that
come from one thread are nevertheless those of a run in which there is no other thread
(`Watch.eventsOf_alone`): what the maps hold for a thread is decided by its own hits
(`Stamping.lookup_run`, `Watch.lookup_handle`), and an event by what they hold.
-/

namespace Uatu

/-! ## Records -/

/-- What a hit submits, from the time that its thread has in the map. -/
theorem step_snd (s : EntryTimes) (h : Hit) : (watchBpf.step s h).2 =
    if h.reserved then
      some {
        timestampNs := h.ktime
        durationNs :=
          if h.probe = .uprobe then 0 else (s.lookup h.tid).elim 0 (h.ktime - ·)
        args := if h.probe = .uprobe then h.parm else fun _ => 0
        retVal := if h.probe = .uprobe then 0 else h.rc
        funcAddr := h.funcIp
        tid := h.tid
        isExit := decide (h.probe = .uretprobe) }
    else none := by
  cases hp : h.probe with
  | uprobe => by_cases hr : h.reserved = true <;> simp [watchBpf, hp, WatchBpf.uprobeEntry, hr]
  | uretprobe => by_cases hr : h.reserved = true <;> simp [watchBpf, hp, WatchBpf.uprobeExit, hr]

theorem hitsOf_hitsOf (t : Tid) (l : List Hit) : hitsOf t (hitsOf t l) = hitsOf t l := by
  simp [hitsOf]

theorem FewThreads.of_subset {l l' : List Hit} (h : FewThreads l) (hsub : l' ⊆ l) :
    FewThreads l' := by
  obtain ⟨threads, hlen, hmem⟩ := h
  exact ⟨threads, hlen, fun x hx => hmem x (hsub hx)⟩

theorem map_fst_observationsOf (t : Tid) (l : List Observation) :
    (Watch.observationsOf t l).map Prod.fst = hitsOf t (l.map Prod.fst) := by
  rw [Watch.observationsOf, hitsOf, List.filter_map]
  rfl

/-- A hit submits what it would submit if its thread were alone. -/
theorem recordOf_alone {l : List Observation} {o : Observation}
    (hl : FewThreads (l.map Prod.fst)) :
    recordOf (Watch.observationsOf o.1.tid l) o = recordOf l o := by
  have hlookup : (watchBpf.state (hitsOf o.1.tid (l.map Prod.fst))).lookup o.1.tid =
      (watchBpf.state (l.map Prod.fst)).lookup o.1.tid := by
    have halone : FewThreads (hitsOf o.1.tid (l.map Prod.fst)) :=
      hl.of_subset (List.filter_subset_self _)
    calc (watchBpf.state (hitsOf o.1.tid (l.map Prod.fst))).lookup o.1.tid
        = (hitsOf o.1.tid (hitsOf o.1.tid (l.map Prod.fst))).getLast?.bind Hit.stamp :=
          WatchBpf.stamping.lookup_run halone
      _ = (hitsOf o.1.tid (l.map Prod.fst)).getLast?.bind Hit.stamp := by rw [hitsOf_hitsOf]
      _ = (watchBpf.state (l.map Prod.fst)).lookup o.1.tid :=
          (WatchBpf.stamping.lookup_run hl).symm
  rw [recordOf, recordOf, map_fst_observationsOf, step_snd, step_snd, hlookup]

namespace Watch

variable (w : Watch)

/-! ## The events of a thread -/

/-- The events that the callback adds, each with the thread whose record it handles. -/
def addedFrom : WatchState → List Delivery → List (Tid × WatchEvent)
  | _, [] => []
  | s, d :: ds =>
    ((w.callback s d).events.drop s.events.length).map (d.1.tid, ·) ++
      addedFrom (w.callback s d) ds

/-- The events that come from a thread. -/
def eventsOf (t : Tid) (ds : List Delivery) : List WatchEvent :=
  ((w.addedFrom start ds).filter (·.1 = t)).map Prod.snd

variable {w} {l : List Observation} {o : Observation} {t : Tid}

theorem addedFrom_append {s : WatchState} {ds ds' : List Delivery} :
    w.addedFrom s (ds ++ ds') = w.addedFrom s ds ++ w.addedFrom (ds.foldl w.callback s) ds' := by
  induction ds generalizing s with
  | nil => rfl
  | cons d ds ih => rw [List.cons_append, addedFrom, ih, addedFrom, List.append_assoc]; rfl

/-- The events of all threads are the events. -/
theorem map_snd_addedFrom {s : WatchState} {ds : List Delivery} :
    s.events ++ (w.addedFrom s ds).map Prod.snd = (ds.foldl w.callback s).events := by
  induction ds generalizing s with
  | nil => exact List.append_nil _
  | cons d ds ih =>
    obtain ⟨added, hadded⟩ := events_callback (w := w) s d
    rw [List.foldl_cons, ← ih, addedFrom, ← hadded]
    simp

/-- No thread has more events than there are. -/
theorem length_eventsOf_le (ds : List Delivery) :
    (w.eventsOf t ds).length ≤ (ds.foldl w.callback start).events.length := by
  rw [← map_snd_addedFrom]
  simpa [eventsOf, start] using List.length_filter_le _ _

variable (w) in
/-- The event of a record, from what is cached for its thread. -/
def eventOf (d : Delivery) (cached : Option EntryData) : List WatchEvent :=
  if d.1.isExit = false then []
  else
    match w.target d.1.funcAddr with
    | none => []
    | some (idx, fi) => [exitEvent d.1 idx fi cached]

theorem events_callback_eq {s : WatchState} (d : Delivery)
    (hmax : (s.events.length : ℤ) < w.maxEvents) :
    (w.callback s d).events = s.events ++ w.eventOf d (s.entryCache.lookup d.1.tid) := by
  rw [callback, eventOf, if_neg (not_le.2 hmax)]
  split_ifs
  · cases w.target d.1.funcAddr <;> simp
  · cases w.target d.1.funcAddr <;> simp

/-- One more hit adds its event to those of its thread. -/
theorem eventsOf_concat {r : RawEvent} (hrec : recordOf l o = some r)
    (hmax : ((w.handle l).events.length : ℤ) < w.maxEvents) :
    w.eventsOf t (deliveries (l ++ [o])) = w.eventsOf t (deliveries l) ++
      if r.tid = t then
        w.eventOf (r, o.2) ((w.handle l).entryCache.lookup r.tid) else [] := by
  have hadded : w.addedFrom start (deliveries (l ++ [o])) = w.addedFrom start (deliveries l) ++
      (w.eventOf (r, o.2) ((w.handle l).entryCache.lookup r.tid)).map (r.tid, ·) := by
    rw [deliveries_concat, hrec, addedFrom_append]
    change _ ++ (List.map _ (List.drop _ (w.callback (w.handle l) (r, o.2)).events) ++ []) = _
    rw [events_callback_eq _ hmax, List.append_nil]
    congr 2
    exact List.drop_left
  rw [eventsOf, hadded, List.filter_append, List.map_append, eventsOf]
  congr 1
  split_ifs with ht
  · simp [ht, List.filter_map, Function.comp_def]
  · simp [ht, List.filter_map, Function.comp_def]

/-- **The events that come from a thread** are those of a run in which it is alone. -/
theorem eventsOf_alone (hl : FewThreads (l.map Prod.fst)) (hkept : ∀ o ∈ l, o.1.reserved = true)
    (hmax : ((w.handle l).events.length : ℤ) < w.maxEvents) :
    w.eventsOf t (deliveries l) = (w.handle (observationsOf t l)).events := by
  induction l using List.reverseRecOn with
  | nil => rfl
  | append_singleton l o ih =>
    have hl' : FewThreads (l.map Prod.fst) := hl.of_subset (by simp)
    have hle : ((w.handle l).events.length : ℤ) < w.maxEvents :=
      lt_of_le_of_lt (by exact_mod_cast (events_handle l [o]).length_le) hmax
    have ih := ih hl' (fun x hx => hkept x (List.mem_append_left _ hx)) hle
    obtain ⟨r, hrec, hrecords⟩ := recordOf_kept (l := l) (hkept o (by simp))
    rw [eventsOf_concat hrec hle, ih, hrecords.tid]
    by_cases ht : o.1.tid = t
    · subst ht
      have halone : ((w.handle (observationsOf o.1.tid l)).events.length : ℤ) < w.maxEvents := by
        rw [← ih]
        exact lt_of_le_of_lt (by exact_mod_cast length_eventsOf_le _) hle
      have hobs : observationsOf o.1.tid (l ++ [o]) = observationsOf o.1.tid l ++ [o] := by
        simp [observationsOf]
      -- alone, the thread finds the same in the cache
      have hcached : (w.handle (observationsOf o.1.tid l)).entryCache.lookup o.1.tid =
          (w.handle l).entryCache.lookup o.1.tid := by
        rw [lookup_handle halone, lookup_handle hle]
        simp [observationsOf]
      rw [if_pos rfl, hobs, handle_kept ((recordOf_alone hl').trans hrec),
        events_callback_eq _ halone, show (r, o.2).1.tid = o.1.tid from hrecords.tid, hcached]
    · have hobs : observationsOf t (l ++ [o]) = observationsOf t l := by simp [observationsOf, ht]
      rw [if_neg ht, hobs, List.append_nil]

/-- What is observed of these hits, when the memory does not change. -/
def observed (mem : ProcMem) (l : List Hit) : List Observation := l.map (·, mem)

theorem observationsOf_observed (t : Tid) (mem : ProcMem) (l : List Hit) :
    observationsOf t (observed mem l) = observed mem (hitsOf t l) := by
  rw [observationsOf, observed, hitsOf, observed, List.filter_map]
  rfl

end Watch

open Watch in
/-- **Threads are isolated from each other**: in two runs in which every thread has the same hits,
interleaved in one way or another, the same events come from each. -/
theorem threads_isolated {w : Watch} {mem : ProcMem} {l l' : List Hit}
    (h : ∀ t, hitsOf t l = hitsOf t l') (hfew : FewThreads l)
    (hkept : ∀ x ∈ l, x.reserved = true)
    (hmax : ((w.handle (observed mem l)).events.length : ℤ) < w.maxEvents)
    (hmax' : ((w.handle (observed mem l')).events.length : ℤ) < w.maxEvents) (t : Tid) :
    w.eventsOf t (deliveries (observed mem l)) = w.eventsOf t (deliveries (observed mem l')) := by
  have hmem : ∀ x ∈ l', x ∈ l := by
    intro x hx
    have hhits : x ∈ hitsOf x.tid l' := List.mem_filter.2 ⟨hx, by simp⟩
    rw [← h] at hhits
    exact (List.mem_filter.1 hhits).1
  have hfst : ∀ l, (observed mem l).map Prod.fst = l := by
    intro l
    simp [observed, Function.comp_def]
  have halone : w.eventsOf t (deliveries (observed mem l)) =
      (w.handle (observationsOf t (observed mem l))).events :=
    eventsOf_alone (by rwa [hfst]) (by simpa [observed] using hkept) hmax
  have halone' : w.eventsOf t (deliveries (observed mem l')) =
      (w.handle (observationsOf t (observed mem l'))).events :=
    eventsOf_alone (by rw [hfst]; exact hfew.of_subset hmem)
      (by simpa [observed] using fun x hx => hkept x (hmem x hx)) hmax'
  rw [halone, halone', observationsOf_observed, observationsOf_observed, h]

/-! ## Two threads that call one function -/

/-- A hit of `f`, in which everything is `v`. -/
def Hit.ofThread (t : Word) (probe : Probe) (v : Word) : Hit :=
  ⟨probe, t, v, 0x1000, fun _ => v, v, true⟩

open Watch in
theorem threads_isolated_interleaved :
    pair.eventsOf 1 (deliveries (observed .unreadable
      [.ofThread 1 .uprobe 7, .ofThread 2 .uprobe 8, .ofThread 1 .uretprobe 9,
        .ofThread 2 .uretprobe 10])) =
    pair.eventsOf 1 (deliveries (observed .unreadable
      [.ofThread 2 .uprobe 8, .ofThread 2 .uretprobe 10, .ofThread 1 .uprobe 7,
        .ofThread 1 .uretprobe 9])) := by
  refine threads_isolated (fun t => ?_) ⟨[1, 2], by decide, by decide⟩ (by decide) (by decide)
    (by decide) 1
  by_cases h₁ : (1 : Tid) = t
  · subst h₁
    rfl
  · by_cases h₂ : (2 : Tid) = t
    · subst h₂
      rfl
    · have hnone : ∀ l : List Hit, (∀ x ∈ l, x.tid = 1 ∨ x.tid = 2) → hitsOf t l = [] := by
        intro l hl
        refine List.filter_eq_nil_iff.2 fun x hx => ?_
        obtain hx | hx := hl x hx
        · simpa [hx] using h₁
        · simpa [hx] using h₂
      rw [hnone _ (by decide), hnone _ (by decide)]

end Uatu
