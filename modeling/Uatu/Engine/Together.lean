import Uatu.Engine.Firings

/-!
# Functions that are watched together

A pattern can match several functions, which are then watched together. The events of one of them
are those of a run that watches it alone, up to the durations and parameters, and altogether exactly
if none of its calls calls another of the functions without calling the function itself
(`watched_together`): the map of the kernel's programs and the cache of the callback have one place
for each thread.
-/

namespace Uatu

open Nesting

/-- The ways to split a list of which the last element is known. -/
theorem forall_split_concat {α : Type} {Q : List α → α → Prop} {l : List α} {o : α} :
    (∀ pre y post, l ++ [o] = pre ++ y :: post → Q pre y) ↔
      (∀ pre y post, l = pre ++ y :: post → Q pre y) ∧ Q l o := by
  constructor
  · refine fun h => ⟨fun pre y post hl => h pre y (post ++ [o]) ?_, h l o [] rfl⟩
    rw [hl, List.append_assoc, List.cons_append]
  · rintro ⟨h, ho⟩ pre y post hl
    cases post using List.reverseRecOn with
    | nil =>
      obtain ⟨rfl, rfl⟩ := List.append_singleton_inj.1 hl
      exact ho
    | append_singleton post z =>
      rw [← List.cons_append, ← List.append_assoc] at hl
      exact h pre y post (List.append_singleton_inj.1 hl).1

/-- A call, without what is observed of the memory. -/
theorem ObservedCall.invocation {x y : Observation} {mid : List Observation}
    (h : ObservedCall x mid y) : Invocation x.1 (mid.map Prod.fst) y.1 where
  opens := h.opens
  closes := h.closes
  fits := h.fits
  same := h.same
  nested := by
    rw [List.filter_map]
    exact h.nested.map _ (fun _ => rfl) fun _ _ h => h

/-- The same return of a function. -/
structure WatchEvent.SameReturn (ev ev' : WatchEvent) : Prop where
  timestampNs : ev.timestampNs = ev'.timestampNs
  funcName : ev.funcName = ev'.funcName
  retValue : ev.retValue = ev'.retValue
  isException : ev.isException = ev'.isException

namespace Watch

variable (w : Watch)

/-- One of the functions is watched alone. -/
def only (fi : FuncInfo) : Watch := { w with targets := [fi] }

/-- The hits of the function at an address. -/
def hitsAt (a : Addr) (l : List Observation) : List Observation :=
  l.filter fun o => o.1.funcIp = a

/-- A record, with the function that it is of. -/
def byFunction (d : Delivery) : Addr × Delivery := (d.1.funcAddr, d)

/-- The events of the function at an address. -/
def eventsAt (a : Addr) (ds : List Delivery) : List WatchEvent :=
  ((w.taggedFrom start (ds.map byFunction)).filter (·.1 = a)).map Prod.snd

/-- The map has room for the threads, no record is lost, and no event is left out. -/
structure Complete (w : Watch) (l : List Observation) : Prop where
  watched : w.Watched l
  few : FewThreads (l.map Prod.fst)
  kept : ∀ o ∈ l, o.1.reserved = true
  room : ((w.handle l).events.length : ℤ) < w.maxEvents

/-- Every exit of the function is that of a call, in which the calls are nested. -/
def Nested (a : Addr) (l : List Observation) : Prop :=
  ∀ pre y post, l = pre ++ y :: post → y.1.probe = .uretprobe → y.1.funcIp = a →
    ∃ before x mid, pre = before ++ x :: mid ∧ ObservedCall x mid y

/-- The call shows as much of itself when other functions are watched: it calls none of them, or
the function itself too, or there is nothing to show. -/
def ShowsItself (fi : FuncInfo) (x : Observation) (mid : List Observation) (y : Observation) :
    Prop :=
  observationsOf x.1.tid mid = [] ∨ hitsAt y.1.funcIp (observationsOf x.1.tid mid) ≠ [] ∨
    (y.1.ktime = x.1.ktime ∧ fi.paramTypes = [])

variable {w} {τ : Type} {l : List Observation} {o x y : Observation} {a : Addr} {idx : ℕ}
  {fi : FuncInfo}

/-! ## The event of a hit -/

theorem taggedFrom_append {s : WatchState} {ds ds' : List (τ × Delivery)} :
    w.taggedFrom s (ds ++ ds') =
      w.taggedFrom s ds ++ w.taggedFrom ((ds.map Prod.snd).foldl w.callback s) ds' := by
  induction ds generalizing s with
  | nil => rfl
  | cons d ds ih => rw [List.cons_append, taggedFrom, ih, taggedFrom, List.append_assoc]; rfl

theorem map_snd_byFunction (ds : List Delivery) : (ds.map byFunction).map Prod.snd = ds := by
  rw [List.map_map]
  exact List.map_id ds

theorem length_eventsAt_le (ds : List Delivery) :
    (w.eventsAt a ds).length ≤ (ds.foldl w.callback start).events.length := by
  rw [eventsAt, List.length_map]
  refine (List.length_filter_le _ _).trans ?_
  have hevents : start.events ++ (w.taggedFrom start (ds.map byFunction)).map Prod.snd =
      (((ds.map byFunction).map Prod.snd).foldl w.callback start).events := map_snd_taggedFrom
  rw [map_snd_byFunction] at hevents
  rw [← hevents]
  simp [start]

/-- What one more hit adds to the events. -/
theorem events_concat {r : RawEvent} (hrec : recordOf l o = some r) (hrecords : Records o.1 r)
    (hmax : ((w.handle l).events.length : ℤ) < w.maxEvents) :
    (w.handle (l ++ [o])).events =
      (w.handle l).events ++ w.eventOf (r, o.2) (w.cached (observationsOf o.1.tid l)) := by
  rw [handle_kept hrec, events_callback_eq _ hmax, show (r, o.2).1.tid = o.1.tid from hrecords.tid,
    lookup_handle hmax]

/-- And to those of a function. -/
theorem eventsAt_concat {r : RawEvent} (hrec : recordOf l o = some r) (hrecords : Records o.1 r)
    (hmax : ((w.handle l).events.length : ℤ) < w.maxEvents) :
    w.eventsAt a (deliveries (l ++ [o])) = w.eventsAt a (deliveries l) ++
      if o.1.funcIp = a then w.eventOf (r, o.2) (w.cached (observationsOf o.1.tid l)) else [] := by
  have hadded : w.taggedFrom (w.handle l) [(o.1.funcIp, (r, o.2))] =
      (w.eventOf (r, o.2) (w.cached (observationsOf o.1.tid l))).map (o.1.funcIp, ·) := by
    change List.map _ (List.drop _ (w.callback (w.handle l) (r, o.2)).events) ++ [] = _
    rw [List.append_nil, ← handle_kept hrec, events_concat hrec hrecords hmax]
    congr 1
    exact List.drop_left
  have htag : (deliveries (l ++ [o])).map byFunction =
      (deliveries l).map byFunction ++ [(o.1.funcIp, (r, o.2))] := by
    rw [deliveries_concat, hrec, List.map_append]
    change _ ++ [(r.funcAddr, (r, o.2))] = _
    rw [hrecords.funcAddr]
  rw [eventsAt, htag, taggedFrom_append, map_snd_byFunction]
  change List.map _ (List.filter _ (_ ++ w.taggedFrom (w.handle l) _)) = _
  rw [hadded, List.filter_append, List.map_append, eventsAt]
  congr 1
  split_ifs with ha
  · simp [ha, List.filter_map, Function.comp_def]
  · simp [ha, List.filter_map, Function.comp_def]

/-! ## The event of an exit -/

theorem eventOf_exit {r : RawEvent} (hrecords : Records o.1 r) (hp : o.1.probe = .uretprobe)
    (ht : w.target o.1.funcIp = some (idx, fi)) (mem : ProcMem) (slot : Option EntryData) :
    w.eventOf (r, mem) slot = [exitEvent r idx fi slot] := by
  rw [eventOf, if_neg (by simp [hrecords.isExit.2 hp]), hrecords.funcAddr, ht]

theorem eventOf_entry {r : RawEvent} (hrecords : Records o.1 r) (hp : o.1.probe ≠ .uretprobe)
    (mem : ProcMem) (slot : Option EntryData) : w.eventOf (r, mem) slot = [] :=
  if_pos (Bool.eq_false_iff.2 fun h => hp (hrecords.isExit.1 h))

theorem sameReturn_exitEvent {r r' : RawEvent} {idx' : ℕ} {slot slot' : Option EntryData}
    (h : Records o.1 r) (h' : Records o.1 r') (hp : o.1.probe = .uretprobe) :
    (exitEvent r idx fi slot).SameReturn (exitEvent r' idx' fi slot') where
  timestampNs := h.timestamp.trans h'.timestamp.symm
  funcName := rfl
  retValue := congrArg (formatIntVal · fi.returnType) ((h.retVal hp).trans (h'.retVal hp).symm)
  isException := rfl

/-- What the exit of a call shows of it. -/
theorem exitEvent_call (before : List Observation) {mid : List Observation} {r : RawEvent}
    (h : ObservedCall x mid y) (hfew : FewThreads ((before ++ x :: mid).map Prod.fst))
    (hkept : ∀ o ∈ x :: mid, o.1.reserved = true) (hr : y.1.reserved = true)
    (hw : w.Watched mid) (ht : w.target y.1.funcIp = some (idx, fi))
    (hrec : recordOf (before ++ x :: mid) y = some r) :
    exitEvent r idx fi (w.cached (observationsOf y.1.tid (before ++ x :: mid))) =
      { timestampNs := y.1.ktime
        durationNs := if observationsOf x.1.tid mid = [] then y.1.ktime - x.1.ktime else 0
        funcName := fi.name
        params := if observationsOf x.1.tid mid = [] then callParams fi x else []
        retValue := formatIntVal y.1.rc fi.returnType } := by
  have htx : w.target x.1.funcIp = some (idx, fi) := by
    rw [← show y.1.funcIp = x.1.funcIp from h.fits, ht]
  have hmid : hitsOf x.1.tid (mid.map Prod.fst) = [] ↔ observationsOf x.1.tid mid = [] := by
    rw [← map_fst_observationsOf, List.map_eq_nil_iff]
  have hlookup : (watchBpf.state ((before ++ x :: mid).map Prod.fst)).lookup y.1.tid =
      if observationsOf x.1.tid mid = [] then some x.1.ktime else none := by
    rw [List.map_append, List.map_cons] at hfew ⊢
    have hexit := WatchBpf.stamping.lookup_exit hfew h.invocation
    simp only [hmid] at hexit
    exact hexit
  rw [h.same, cached_call before h hkept hw htx]
  simp only [recordOf, step_snd, hr, hlookup, probe_closes h.closes, reduceCtorEq, if_false,
    if_true] at hrec
  cases hrec
  by_cases hnone : observationsOf x.1.tid mid = []
  · simp [hnone, exitEvent, exitParams, callParams]
  · simp [hnone, exitEvent, exitParams]

/-! ## The events of a function -/

theorem only_target (ht : w.target a = some (idx, fi)) : (w.only fi).target a = some (0, fi) := by
  have hlookup : (w.only fi).addrToIdx.lookup a = some 0 := by
    rw [← address_target ht]
    exact AList.lookup_insert _
  rw [target, hlookup]
  rfl

theorem hitsAt_concat : hitsAt a (l ++ [o]) = hitsAt a l ++ if o.1.funcIp = a then [o] else [] := by
  by_cases ha : o.1.funcIp = a <;> simp [hitsAt, ha]

theorem room_only {evs : List WatchEvent}
    (h : List.Forall₂ WatchEvent.SameReturn (w.eventsAt a (deliveries l)) evs)
    (hl : w.Complete l) : (evs.length : ℤ) < (w.only fi).maxEvents := by
  refine lt_of_le_of_lt ?_ hl.room
  rw [← h.length_eq]
  exact_mod_cast length_eventsAt_le _

theorem Complete.of_append {s : List Observation} (h : w.Complete (l ++ s)) : w.Complete l where
  watched o ho := h.watched o (List.mem_append_left _ ho)
  few := h.few.of_subset (by simp)
  kept o ho := h.kept o (List.mem_append_left _ ho)
  room := lt_of_le_of_lt (by exact_mod_cast (events_handle l s).length_le) h.room

/-- **The events of a function** are of the same exits as when it is watched alone. -/
theorem forall₂_alone (ht : w.target a = some (idx, fi)) (h : w.Complete l) :
    List.Forall₂ WatchEvent.SameReturn (w.eventsAt a (deliveries l))
      ((w.only fi).handle (hitsAt a l)).events := by
  induction l using List.reverseRecOn with
  | nil => exact .nil
  | append_singleton l o ih =>
    have ih := ih h.of_append
    obtain ⟨r, hrec, hrecords⟩ := recordOf_kept (l := l) (h.kept o (by simp))
    rw [eventsAt_concat hrec hrecords h.of_append.room, hitsAt_concat]
    by_cases ha : o.1.funcIp = a
    · obtain ⟨r', hrec', hrecords'⟩ := recordOf_kept (l := hitsAt a l) (h.kept o (by simp))
      rw [if_pos ha, if_pos ha, events_concat hrec' hrecords' (room_only ih h.of_append)]
      subst ha
      by_cases hp : o.1.probe = .uretprobe
      · rw [eventOf_exit hrecords hp ht, eventOf_exit hrecords' hp (only_target ht)]
        exact List.rel_append ih (.cons (sameReturn_exitEvent hrecords hrecords' hp) .nil)
      · rw [eventOf_entry hrecords hp, eventOf_entry hrecords' hp]
        exact List.rel_append ih .nil
    · rw [if_neg ha, if_neg ha, List.append_nil, List.append_nil]
      exact ih

/-- Alone it has room too. -/
theorem Complete.only (h : w.Complete l) (ht : w.target a = some (idx, fi)) :
    (w.only fi).Complete (hitsAt a l) where
  watched o ho := ⟨fi, by simp [Watch.only], by
    rw [of_decide_eq_true (List.mem_filter.1 ho).2]
    exact (address_target ht).symm⟩
  few := h.few.of_subset (List.map_subset _ (List.filter_subset_self _))
  kept o ho := h.kept o (List.mem_filter.1 ho).1
  room := room_only (forall₂_alone ht h) h

/-! ## What they show -/

/-- The event of a call is the one that it has alone exactly if the call shows itself. -/
theorem exitEvent_alone_iff {before mid : List Observation} {r r' : RawEvent}
    (hl : l = before ++ x :: mid) (hcall : ObservedCall x mid y) (h : w.Complete l)
    (hr : y.1.reserved = true) (ht : w.target y.1.funcIp = some (idx, fi))
    (hrec : recordOf l y = some r) (hrec' : recordOf (hitsAt y.1.funcIp l) y = some r') :
    exitEvent r idx fi (w.cached (observationsOf y.1.tid l)) =
        exitEvent r' 0 fi
          ((w.only fi).cached (observationsOf y.1.tid (hitsAt y.1.funcIp l))) ↔
      ShowsItself fi x mid y := by
  subst hl
  have hat : hitsAt y.1.funcIp (before ++ x :: mid) =
      hitsAt y.1.funcIp before ++ x :: hitsAt y.1.funcIp mid := by
    have hx : x.1.funcIp = y.1.funcIp := (show y.1.funcIp = x.1.funcIp from hcall.fits).symm
    simp [hitsAt, hx]
  have halone : (w.only fi).Complete _ := h.only ht
  rw [hat] at halone hrec' ⊢
  have hcall' : ObservedCall x (hitsAt y.1.funcIp mid) y :=
    hcall.filter fun u v huv => by rw [show v.1.funcIp = u.1.funcIp from huv]
  rw [exitEvent_call before hcall h.few (fun o ho => h.kept o (by simp_all)) hr
      (fun o ho => h.watched o (by simp [ho])) ht hrec,
    exitEvent_call _ hcall' halone.few (fun o ho => halone.kept o (by simp_all)) hr
      (fun o ho => halone.watched o (by simp [ho])) (only_target ht) hrec']
  have hmid : observationsOf x.1.tid (hitsAt y.1.funcIp mid) =
      hitsAt y.1.funcIp (observationsOf x.1.tid mid) := List.filter_comm ..
  rw [hmid, ShowsItself, WatchEvent.mk.injEq]
  by_cases hnone : observationsOf x.1.tid mid = []
  · simp [hnone, hitsAt]
  by_cases hown : hitsAt y.1.funcIp (observationsOf x.1.tid mid) = []
  · have htime : 0#64 = y.1.ktime - x.1.ktime ↔ y.1.ktime = x.1.ktime := eq_comm.trans sub_eq_zero
    have hparams : [] = callParams fi x ↔ fi.paramTypes = [] := eq_comm.trans callParams_eq_nil
    simp [hnone, hown, htime, hparams]
  · simp [hnone, hown]

/-- The exits of the function show themselves. -/
def AllShow (a : Addr) (fi : FuncInfo) (l : List Observation) : Prop :=
  ∀ pre y post, l = pre ++ y :: post → ∀ before x mid, pre = before ++ x :: mid →
    ObservedCall x mid y → y.1.funcIp = a → ShowsItself fi x mid y

theorem eventsAt_alone_iff (ht : w.target a = some (idx, fi)) (h : w.Complete l)
    (hnested : Nested a l) :
    w.eventsAt a (deliveries l) = ((w.only fi).handle (hitsAt a l)).events ↔ AllShow a fi l := by
  induction l using List.reverseRecOn with
  | nil => simp [AllShow, hitsAt, eventsAt, deliveries, deliveriesFrom, handle, taggedFrom, start]
  | append_singleton l o ih =>
    rw [Nested, forall_split_concat] at hnested
    obtain ⟨hnested, hlast⟩ := hnested
    have ih := ih h.of_append hnested
    have halone := h.of_append.only ht
    obtain ⟨r, hrec, hrecords⟩ := recordOf_kept (l := l) (h.kept o (by simp))
    rw [AllShow, forall_split_concat, ← AllShow, ← ih,
      eventsAt_concat hrec hrecords h.of_append.room, hitsAt_concat]
    by_cases ha : o.1.funcIp = a
    · subst ha
      obtain ⟨r', hrec', hrecords'⟩ :=
        recordOf_kept (l := hitsAt o.1.funcIp l) (h.kept o (by simp))
      rw [if_pos rfl, if_pos rfl, events_concat hrec' hrecords' halone.room]
      by_cases hp : o.1.probe = .uretprobe
      · rw [eventOf_exit hrecords hp ht, eventOf_exit hrecords' hp (only_target ht),
          List.append_singleton_inj]
        refine and_congr_right fun _ => ?_
        have hshows : ∀ before x mid, l = before ++ x :: mid → ObservedCall x mid o →
            (_ = _ ↔ ShowsItself fi x mid o) := fun _ _ _ hl hcall =>
          exitEvent_alone_iff hl hcall h.of_append (h.kept o (by simp)) ht hrec hrec'
        obtain ⟨before, x, mid, hl, hcall⟩ := hlast hp rfl
        exact ⟨fun heq _ _ _ hl hcall _ => (hshows _ _ _ hl hcall).1 heq,
          fun hall => (hshows _ _ _ hl hcall).2 (hall _ _ _ hl hcall rfl)⟩
      · rw [eventOf_entry hrecords hp, eventOf_entry hrecords' hp, List.append_nil,
          List.append_nil]
        refine (and_iff_left fun before x mid _ hcall _ => ?_).symm
        exact (hp (probe_closes hcall.closes)).elim
    · rw [if_neg ha, if_neg ha, List.append_nil, List.append_nil]
      exact (and_iff_left fun _ _ _ _ _ hat => (ha hat).elim).symm

end Watch

open Watch in
/-- **Watching several functions together**, when no record is lost and no event left out: each has
the events that it has when it is watched alone, at the same times and with the same return values,
and they are altogether the same exactly if none of its calls calls another of the functions without
calling the function itself, but calls that take no time and have no parameters. -/
theorem watched_together {w : Watch} {l : List Observation} {a : Addr} {idx : ℕ} {fi : FuncInfo}
    (ht : w.target a = some (idx, fi)) (h : w.Complete l) (hnested : Nested a l) :
    List.Forall₂ WatchEvent.SameReturn (w.eventsAt a (deliveries l))
      ((w.only fi).handle (hitsAt a l)).events ∧
    (w.eventsAt a (deliveries l) = ((w.only fi).handle (hitsAt a l)).events ↔ AllShow a fi l) :=
  ⟨forall₂_alone ht h, eventsAt_alone_iff ht h hnested⟩

open Watch in
/-- A call that calls the other function. -/
theorem watched_together_inner :
    let l := outer.1 :: inner 0x2000 true ++ [outer.2]
    let alone := pair.only (intFunc "f".toList 0x1000)
    List.Forall₂ WatchEvent.SameReturn (pair.eventsAt 0x1000 (deliveries l))
      (alone.handle (hitsAt 0x1000 l)).events ∧
    pair.eventsAt 0x1000 (deliveries l) ≠ (alone.handle (hitsAt 0x1000 l)).events := by
  intro l alone
  have hcomplete : pair.Complete l :=
    ⟨watched_pair (by decide), ⟨[1], by decide, by decide⟩, by decide, by decide⟩
  have hnested : Nested 0x1000 l := by
    refine forall_split_concat.2 ⟨fun pre y post hl hp ha => ?_, fun _ _ => ?_⟩
    · -- the other exit is not of this function
      have hnone : ∀ o ∈ outer.1 :: inner 0x2000 true,
          o.1.probe = .uretprobe → o.1.funcIp ≠ 0x1000 := by decide
      exact (hnone y (hl ▸ by simp) hp ha).elim
    · exact ⟨[], outer.1, _, rfl, call_inner⟩
  obtain ⟨hsame, hiff⟩ :=
    @watched_together pair l 0x1000 0 (intFunc "f".toList 0x1000) rfl hcomplete hnested
  refine ⟨hsame, fun heq => ?_⟩
  obtain hnone | hown | ⟨-, hparams⟩ := hiff.1 heq _ outer.2 [] rfl [] _ _ rfl call_inner rfl
  · cases hnone
  · exact hown rfl
  · cases hparams

end Uatu
