import Uatu.Engine.WatchCache
import Uatu.Foundations.Index

/-!
# Whose parameters an event shows

The events of `watch` against the calls of the process. An exit shows what is cached for its thread
if that is of the same target. When no record is lost this is the entry of the same call exactly if
no watched call lies in between (`params_iff`).
-/

namespace Uatu

open Nesting

/-- Calls of watched functions, as observations. -/
def observedCalls : Nesting.Calls Observation where
  opens o := probedCalls.opens o.1
  fits x y := probedCalls.fits x.1 y.1

/-- The entry and the exit of one call, and what is observed between them. -/
abbrev ObservedCall (x : Observation) (mid : List Observation) (y : Observation) : Prop :=
  Nesting.Invocation observedCalls (fun o => o.1.tid) x mid y

namespace Watch

variable {w : Watch}

/-- Only probes of the targets are hit. -/
def Watched (w : Watch) (l : List Observation) : Prop :=
  ∀ o ∈ l, ∃ fi ∈ w.targets, o.1.funcIp = fi.address + w.slide

/-- The parameters of a call with this entry. -/
def callParams (fi : FuncInfo) (x : Observation) : List Text :=
  formatParams fi.paramTypes x.1.parm fi.hasThis (resolveStrs x.2 x.1.parm fi)

/-! ## The index of the targets -/

/-- The index, as a map from the runtime address of a target to its position. -/
theorem addrToIdx_eq : w.addrToIdx =
    Index.insertAll (fun p : FuncInfo × ℕ => p.1.address + w.slide) Prod.snd w.targets.zipIdx ∅ :=
  rfl

theorem lookup_addrToIdx {a : Addr} {i : ℕ} (h : w.addrToIdx.lookup a = some i) :
    ∃ fi, w.targets[i]? = some fi ∧ fi.address + w.slide = a := by
  rw [addrToIdx_eq] at h
  obtain h | ⟨⟨fi, j⟩, hp, ha, rfl⟩ := Index.lookup_insertAll h
  · simp at h
  · exact ⟨fi, List.mk_mem_zipIdx_iff_getElem?.1 hp, ha⟩

/-- A target that is found at an address is there. -/
theorem address_target {a : Addr} {i : ℕ} {fi : FuncInfo} (h : w.target a = some (i, fi)) :
    fi.address + w.slide = a := by
  simp only [target, bind, Option.bind_eq_some_iff] at h
  obtain ⟨j, hj, fi', hfi, heq⟩ := h
  obtain ⟨rfl, rfl⟩ : j = i ∧ fi' = fi := by simpa using heq
  obtain ⟨fi'', hfi'', ha⟩ := lookup_addrToIdx hj
  rw [hfi] at hfi''
  cases hfi''
  exact ha

/-- One target is not found at two addresses. -/
theorem target_inj {a b : Addr} {i : ℕ} {fi fi' : FuncInfo} (ha : w.target a = some (i, fi))
    (hb : w.target b = some (i, fi')) : a = b := by
  have hfi : fi = fi' := by
    simp only [target, bind, Option.bind_eq_some_iff] at ha hb
    obtain ⟨j, -, f, hf, heq⟩ := ha
    obtain ⟨j', -, f', hf', heq'⟩ := hb
    obtain ⟨rfl, rfl⟩ : j = i ∧ f = fi := by simpa using heq
    obtain ⟨rfl, rfl⟩ : j' = j ∧ f' = fi' := by simpa using heq'
    exact Option.some.inj (hf.symm.trans hf')
  rw [← address_target ha, ← address_target hb, hfi]

/-- At the address of a target one is found. -/
theorem exists_target {fi : FuncInfo} (h : fi ∈ w.targets) :
    ∃ p, w.target (fi.address + w.slide) = some p := by
  obtain ⟨i, hi⟩ := List.getElem?_of_mem h
  have hmem : fi.address + w.slide ∈ w.addrToIdx := by
    rw [addrToIdx_eq, Index.mem_insertAll]
    exact .inr ⟨(fi, i), List.mk_mem_zipIdx_iff_getElem?.2 hi, rfl⟩
  obtain ⟨j, hj⟩ := Option.isSome_iff_exists.1 (AList.lookup_isSome.2 hmem)
  obtain ⟨fi', hfi', -⟩ := lookup_addrToIdx hj
  exact ⟨(j, fi'), by simp [target, hj, hfi']⟩

/-! ## The event of an exit -/

/-- A kept exit adds one event, with the parameters of what is cached. -/
theorem handle_exit {l : List Observation} (post : List Observation) {y : Observation} {idx : ℕ}
    {fi : FuncInfo} (hr : y.1.reserved = true) (hp : y.1.probe = .uretprobe)
    (ht : w.target y.1.funcIp = some (idx, fi))
    (hmax : ((w.handle l).events.length : ℤ) < w.maxEvents) :
    ∃ r after, Records y.1 r ∧ (w.handle (l ++ y :: post)).events = (w.handle l).events ++
      exitEvent r idx fi (w.cached (observationsOf y.1.tid l)) :: after := by
  obtain ⟨r, hrec, hrecords⟩ := recordOf_kept (l := l) hr
  obtain ⟨after, hafter⟩ : (w.handle (l ++ [y])).events <+: (w.handle (l ++ y :: post)).events := by
    simpa using events_handle (w := w) (l ++ [y]) post
  refine ⟨r, after, hrecords, ?_⟩
  have hexit : r.isExit ≠ false := by simp [hrecords.isExit.2 hp]
  have hlookup := lookup_handle (t := y.1.tid) hmax
  rw [← hafter, handle_kept hrec, callback, if_neg hexit, if_neg (not_le.2 hmax),
    hrecords.funcAddr, ht]
  simp only [List.append_assoc, List.singleton_append]
  rw [hrecords.tid, hlookup]

/-- With enough events the callback adds no more. -/
theorem events_callback_of_le {s : WatchState} (d : Delivery)
    (h : w.maxEvents ≤ (s.events.length : ℤ)) : (w.callback s d).events = s.events := by
  unfold callback
  split_ifs
  · split <;> rfl
  · rfl

theorem events_foldl_of_le {s : WatchState} (ds : List Delivery)
    (h : w.maxEvents ≤ (s.events.length : ℤ)) : (ds.foldl w.callback s).events = s.events := by
  induction ds generalizing s with
  | nil => rfl
  | cons d ds ih =>
    have hd := events_callback_of_le d h
    rw [List.foldl_cons, ih (by rwa [hd]), hd]

/-- The loop makes of polls that come in time what the callback makes of their records. -/
theorem events_loop {deadline : ℤ} {polls : List Poll} {s : WatchState}
    (hpolls : ∀ p ∈ polls, p.stopFlag = false ∧ p.now < deadline) :
    (w.loop deadline polls s).events =
      ((polls.flatMap Poll.records).foldl w.callback s).events := by
  induction polls generalizing s with
  | nil => rfl
  | cons p polls ih =>
    have hp := hpolls p (List.mem_cons_self ..)
    rw [List.flatMap_cons, List.foldl_append, loop, hp.1, if_neg Bool.false_ne_true,
      if_neg (not_le.2 hp.2)]
    by_cases hmax : (s.events.length : ℤ) < w.maxEvents
    · rw [if_neg (not_not.2 hmax)]
      exact ih fun q hq => hpolls q (List.mem_cons_of_mem _ hq)
    · have hp := events_foldl_of_le p.records (not_lt.1 hmax)
      rw [if_pos hmax, events_foldl_of_le _ (by rw [hp]; exact not_lt.1 hmax), hp]

/-- What the loop makes of a kept exit. -/
theorem events_loop_exit {deadline : ℤ} {polls : List Poll} {l post : List Observation}
    {y : Observation} {idx : ℕ} {fi : FuncInfo} (hr : y.1.reserved = true)
    (hp : y.1.probe = .uretprobe) (ht : w.target y.1.funcIp = some (idx, fi))
    (hrecords : polls.flatMap Poll.records = deliveries (l ++ y :: post))
    (hpolls : ∀ p ∈ polls, p.stopFlag = false ∧ p.now < deadline)
    (hmax : ((w.handle l).events.length : ℤ) < w.maxEvents) :
    ∃ r after, Records y.1 r ∧ (w.loop deadline polls start).events = (w.handle l).events ++
      exitEvent r idx fi (w.cached (observationsOf y.1.tid l)) :: after := by
  obtain ⟨r, after, hrecord, hevents⟩ := handle_exit post hr hp ht hmax
  refine ⟨r, after, hrecord, ?_⟩
  rw [events_loop hpolls, hrecords, ← hevents, handle]

/-! ## What a hit leaves in the cache -/

section Steps

variable {o : Observation} {idx : ℕ} {fi : FuncInfo} {slot : Option EntryData}

/-- Every hit is of a target. -/
theorem Watched.target {l : List Observation} (h : w.Watched l) (ho : o ∈ l) :
    ∃ idx fi, w.target o.1.funcIp = some (idx, fi) := by
  obtain ⟨fi, hfi, hip⟩ := h o ho
  obtain ⟨⟨idx, fi'⟩, ht⟩ := exists_target hfi
  exact ⟨idx, fi', hip ▸ ht⟩

theorem cacheStep_lost (hr : o.1.reserved = false) : w.cacheStep slot o = slot := if_pos hr

theorem cacheStep_entry (hr : o.1.reserved = true) (hp : o.1.probe = .uprobe)
    (ht : w.target o.1.funcIp = some (idx, fi)) :
    w.cacheStep slot o = some ⟨o.1.parm, idx, resolveStrs o.2 o.1.parm fi⟩ := by
  rw [cacheStep, if_neg (by simp [hr]), ht, hp]

theorem cacheStep_exit (hr : o.1.reserved = true) (hp : o.1.probe = .uretprobe)
    (ht : w.target o.1.funcIp = some (idx, fi)) :
    w.cacheStep slot o = slot.filter (·.idx ≠ idx) := by
  rw [cacheStep, if_neg (by simp [hr]), ht, hp]

end Steps

/-- The two ends of a call are an entry and an exit of one function. -/
theorem probe_opens {x : Observation} (h : observedCalls.opens x = true) : x.1.probe = .uprobe := by
  simpa [observedCalls, probedCalls] using h

theorem probe_closes {y : Observation} (h : observedCalls.opens y = false) :
    y.1.probe = .uretprobe := by
  cases hp : y.1.probe with
  | uprobe => simp [observedCalls, probedCalls, hp] at h
  | uretprobe => rfl

/-! ## When no record is lost -/

/-- **Complete calls leave nothing in the cache**, whatever was there before. -/
theorem cached_balanced {l : List Observation} (h : Balanced observedCalls l)
    (hkept : ∀ o ∈ l, o.1.reserved = true) (hw : w.Watched l) (slot : Option EntryData) :
    l.foldl w.cacheStep slot = if l = [] then slot else none := by
  induction h generalizing slot with
  | nil => rfl
  | @call x y body rest hx hy hxy _ _ ihbody ihrest =>
    have hmem : ∀ o, o = x ∨ o ∈ body ∨ o = y ∨ o ∈ rest → o ∈ x :: (body ++ y :: rest) := by
      intro o ho
      simpa using ho
    obtain ⟨idx, fi, htx⟩ := hw.target (hmem x (.inl rfl))
    have hty : w.target y.1.funcIp = some (idx, fi) := by
      rw [show y.1.funcIp = x.1.funcIp from hxy, htx]
    have hstepx : w.cacheStep slot x = _ :=
      cacheStep_entry (hkept x (hmem x (.inl rfl))) (probe_opens hx) htx
    have hbody := ihbody (fun o ho => hkept o (hmem o (.inr (.inl ho))))
      fun o ho => hw o (hmem o (.inr (.inl ho)))
    have hrest := ihrest (fun o ho => hkept o (hmem o (.inr (.inr (.inr ho)))))
      fun o ho => hw o (hmem o (.inr (.inr (.inr ho))))
    -- at the exit the entry is cached or, after calls in between, nothing is
    have hstepy : w.cacheStep (body.foldl w.cacheStep (w.cacheStep slot x)) y = none := by
      rw [cacheStep_exit (hkept y (hmem y (.inr (.inr (.inl rfl))))) (probe_closes hy) hty, hbody,
        hstepx]
      split_ifs <;> simp [Option.filter]
    rw [if_neg (List.cons_ne_nil _ _), List.foldl_cons, List.foldl_append, List.foldl_cons, hstepy,
      hrest, ite_self]

theorem observationsOf_append_cons {t : Tid} {pre mid : List Observation} {x : Observation}
    (h : x.1.tid = t) :
    observationsOf t (pre ++ x :: mid) = observationsOf t pre ++ x :: observationsOf t mid := by
  simp [observationsOf, h]

theorem callParams_eq_nil {fi : FuncInfo} {x : Observation} :
    callParams fi x = [] ↔ fi.paramTypes = [] := by
  rw [← List.length_eq_zero_iff, callParams, length_formatParams, List.length_eq_zero_iff]

/-- What is cached when the exit of a call comes. -/
theorem cached_call (pre : List Observation) {mid : List Observation} {x y : Observation} {idx : ℕ}
    {fi : FuncInfo} (h : ObservedCall x mid y) (hkept : ∀ o ∈ x :: mid, o.1.reserved = true)
    (hw : w.Watched mid) (ht : w.target x.1.funcIp = some (idx, fi)) :
    w.cached (observationsOf x.1.tid (pre ++ x :: mid)) =
      if observationsOf x.1.tid mid = [] then some ⟨x.1.parm, idx, resolveStrs x.2 x.1.parm fi⟩
      else none := by
  have hmid : ∀ o ∈ observationsOf x.1.tid mid, o ∈ mid := fun o ho => (List.mem_filter.1 ho).1
  rw [observationsOf_append_cons rfl, cached, List.foldl_append, List.foldl_cons,
    cacheStep_entry (hkept x (List.mem_cons_self ..)) (probe_opens h.opens) ht]
  exact cached_balanced h.nested
    (fun o ho => hkept o (List.mem_cons_of_mem _ (hmid o ho))) (fun o ho => hw o (hmid o ho)) _

end Watch

open Watch in
/-- **The parameters of an event**, when no record is lost: they are those of the call whose exit
it reports exactly if no watched call lies between the entry and the exit on the thread, or there
are none. -/
theorem params_iff {w : Watch} {deadline : ℤ} {polls : List Poll} {pre mid post : List Observation}
    {x y : Observation} (h : ObservedCall x mid y)
    (hkept : ∀ o ∈ pre ++ x :: mid ++ y :: post, o.1.reserved = true)
    (hw : w.Watched (pre ++ x :: mid ++ y :: post))
    (hrecords : polls.flatMap Poll.records = deliveries (pre ++ x :: mid ++ y :: post))
    (hpolls : ∀ p ∈ polls, p.stopFlag = false ∧ p.now < deadline)
    (hmax : ((w.handle (pre ++ x :: mid)).events.length : ℤ) < w.maxEvents) :
    ∃ idx fi ev after, w.target y.1.funcIp = some (idx, fi) ∧
      (w.loop deadline polls start).events = (w.handle (pre ++ x :: mid)).events ++ ev :: after ∧
      ev.funcName = fi.name ∧ ev.timestampNs = y.1.ktime ∧
      (ev.params = callParams fi x ↔ observationsOf x.1.tid mid = [] ∨ fi.paramTypes = []) := by
  obtain ⟨idx, fi, ht⟩ := hw.target (show y ∈ pre ++ x :: mid ++ y :: post by simp)
  obtain ⟨r, after, hr, hevents⟩ :=
    events_loop_exit (hkept y (by simp)) (probe_closes h.closes) ht hrecords hpolls hmax
  have htx : w.target x.1.funcIp = some (idx, fi) := by
    rw [← show y.1.funcIp = x.1.funcIp from h.fits, ht]
  have hcached := cached_call pre h (fun o ho => hkept o (by simp at ho ⊢; tauto))
    (fun o ho => hw o (by simp [ho])) htx
  rw [h.same, hcached] at hevents
  refine ⟨idx, fi, _, after, ht, hevents, rfl, hr.timestamp, ?_⟩
  split_ifs with hmid
  · simp [exitEvent, exitParams, callParams, hmid]
  · simp only [exitEvent, exitParams, hmid, false_or]
    exact eq_comm.trans callParams_eq_nil

/-! ## Two functions that call each other -/

/-- A process of which no memory can be read. -/
def ProcMem.unreadable : ProcMem := ⟨fun _ _ => [], by simp⟩

namespace Watch

/-- A function of one `int`. -/
def intFunc (name : Text) (address : Addr) : FuncInfo :=
  ⟨name, name, address, 16, ["int".toList], "int".toList, false⟩

/-- Functions `f` and `g`, watched for at most ten events. -/
def pair : Watch := ⟨[intFunc "f".toList 0x1000, intFunc "g".toList 0x2000], 0, 10⟩

/-- A hit on thread `1` with this value in the registers, the record of which is kept or lost. -/
def observe (probe : Probe) (funcIp : Addr) (v : Word) (reserved : Bool) : Observation :=
  (⟨probe, 1, 0, funcIp, fun _ => v, v, reserved⟩, .unreadable)

/-- The call of `f` with `7`. -/
def outer : Observation × Observation :=
  (observe .uprobe 0x1000 7 true, observe .uretprobe 0x1000 7 true)

/-- A call with `8`, whose exit record is kept or lost. -/
def inner (funcIp : Addr) (kept : Bool) : List Observation :=
  [observe .uprobe funcIp 8 true, observe .uretprobe funcIp 8 kept]

theorem call_inner {funcIp : Addr} {kept : Bool} :
    ObservedCall outer.1 (inner funcIp kept) outer.2 := by
  refine ⟨rfl, rfl, rfl, rfl, ?_⟩
  change Balanced observedCalls
    (observe .uprobe funcIp 8 true :: ([] ++ observe .uretprobe funcIp 8 kept :: []))
  exact .call rfl rfl rfl .nil .nil

/-- All records of a run in one poll. -/
def onePoll (l : List Observation) : List Poll := [⟨false, 0, deliveries l⟩]

theorem watched_pair {l : List Observation}
    (h : ∀ o ∈ l, o.1.funcIp = 0x1000 ∨ o.1.funcIp = 0x2000) : pair.Watched l := by
  intro o ho
  obtain hf | hg := h o ho
  · exact ⟨intFunc "f".toList 0x1000, by simp [pair], hf⟩
  · exact ⟨intFunc "g".toList 0x2000, by simp [pair], hg⟩

end Watch

open Watch in
/-- A call in which no other lies. -/
theorem params_iff_outer :
    ∃ ev ∈ (pair.loop 1 (onePoll [outer.1, outer.2]) start).events,
      ev.params = callParams (intFunc "f".toList 0x1000) outer.1 := by
  have hcall : ObservedCall outer.1 [] outer.2 := ⟨rfl, rfl, rfl, rfl, .nil⟩
  obtain ⟨idx, fi, ev, after, ht, hevents, -, -, hiff⟩ :=
    @params_iff pair 1 (onePoll [outer.1, outer.2]) [] [] [] _ _ hcall (by decide)
      (watched_pair (by decide)) (by simp [onePoll]) (by decide) (by decide)
  cases ht
  refine ⟨ev, ?_, hiff.2 (.inl rfl)⟩
  rw [hevents]
  exact List.mem_append_right _ (List.mem_cons_self ..)

open Watch in
/-- The parameters of a call are missing when it has called another watched function. -/
theorem params_missing :
    let l := outer.1 :: inner 0x2000 true ++ [outer.2]
    ObservedCall outer.1 (inner 0x2000 true) outer.2 ∧
    ∃ ev ∈ (pair.loop 1 (onePoll l) start).events, ev.funcName = "f".toList ∧
      ev.params ≠ callParams (intFunc "f".toList 0x1000) outer.1 :=
  ⟨call_inner, by decide⟩

end Uatu
