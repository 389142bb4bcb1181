import Uatu.Engine.EventBound
import Uatu.Engine.Isolation
import Uatu.Engine.ProbePoints

/-!
# How many events a call yields on the eBPF path

Every target is attached with two links of its own, also where targets share an address. The kernel
runs the program of each link once when a function is entered or left, so a call submits as many
exit records as there are targets at its address, and each of them becomes an event. So a call
yields one event at most exactly if no two targets share an address (`events_once_iff`).
-/

namespace Uatu

open Throwing

variable {R : Type}

/-! ## What the kernel does -/

/-- The program of a link runs, when a call is entered or left. -/
structure Firing where
  /-- The number of the call. -/
  call : ℕ
  /-- The position of the link. -/
  link : ℕ
  obs : Observation

/-- The positions of the links of this kind at this address. -/
def linksAt (links : List UprobeCall) (slide : Word) (probe : Probe) (addr : Addr) : List ℕ :=
  (links.zipIdx.filter fun p =>
    p.1.retprobe = decide (probe = .uretprobe) ∧ p.1.funcOffset + slide = addr).map Prod.snd

/-- **The kernel fires each link once** for each call of the function at its address, when it is
entered or when it is left, and no other. A call is of one function, on one thread. -/
structure Fires (links : List UprobeCall) (slide : Word) (l : List Firing) : Prop where
  attached : ∀ f ∈ l, f.link ∈ linksAt links slide f.obs.1.probe f.obs.1.funcIp
  once : (l.map fun f => (f.call, f.link)).Nodup
  all : ∀ f ∈ l, ∀ i ∈ linksAt links slide f.obs.1.probe f.obs.1.funcIp,
    ∃ g ∈ l, g.call = f.call ∧ g.link = i
  call : ∀ f ∈ l, ∀ g ∈ l, f.call = g.call →
    f.obs.1.funcIp = g.obs.1.funcIp ∧ f.obs.1.tid = g.obs.1.tid
  order : l.Pairwise fun f g =>
    f.call = g.call → f.obs.1.probe = .uretprobe → g.obs.1.probe = .uretprobe

/-- The records of a run from a state of the maps on, each with the call that it is of. -/
def firedFrom : EntryTimes → List Firing → List (ℕ × Delivery)
  | _, [] => []
  | s, f :: l =>
    ((watchBpf.step s f.obs.1).2.map fun r => (f.call, r, f.obs.2)).toList ++
      firedFrom (watchBpf.step s f.obs.1).1 l

/-- The records of a run. -/
def fired (l : List Firing) : List (ℕ × Delivery) := firedFrom watchBpf.init l

/-- It is the return of this call. -/
def Firing.Leaves (x : ℕ) (f : Firing) : Prop := f.call = x ∧ f.obs.1.probe = .uretprobe

instance (x : ℕ) (f : Firing) : Decidable (f.Leaves x) := inferInstanceAs (Decidable (_ ∧ _))

/-- It is the record of the return of this call. -/
def ExitOf (x : ℕ) (d : ℕ × Delivery) : Prop := d.1 = x ∧ d.2.1.isExit = true

instance (x : ℕ) (d : ℕ × Delivery) : Decidable (ExitOf x d) := inferInstanceAs (Decidable (_ ∧ _))

variable {links : List UprobeCall} {slide : Word} {l : List Firing} {x : ℕ} {addr : Addr}

theorem mem_linksAt {probe : Probe} {i : ℕ} : i ∈ linksAt links slide probe addr ↔
    ∃ call, links[i]? = some call ∧ call.retprobe = decide (probe = .uretprobe) ∧
      call.funcOffset + slide = addr := by
  simp only [linksAt, List.mem_map, List.mem_filter, Prod.exists, exists_eq_right,
    List.mk_mem_zipIdx_iff_getElem?, Bool.decide_and, Bool.and_eq_true, decide_eq_true_eq]

theorem nodup_linksAt (links : List UprobeCall) (slide : Word) (probe : Probe) (addr : Addr) :
    (linksAt links slide probe addr).Nodup := by
  refine (List.filter_sublist.map Prod.snd).nodup ?_
  rw [List.zipIdx_map_snd]
  exact List.nodup_range'

/-- **A call is left by as many firings** as there are return links at its address. -/
theorem Fires.length_leaves_le (h : Fires links slide l) (x : ℕ) :
    ∃ addr, (l.filter (Firing.Leaves x)).length ≤ (linksAt links slide .uretprobe addr).length := by
  cases hl : l.filter (Firing.Leaves x) with
  | nil => exact ⟨0, Nat.zero_le _⟩
  | cons f fs =>
    rw [← hl]
    have hmem : ∀ g ∈ l.filter (Firing.Leaves x), g ∈ l ∧ g.Leaves x := by simp
    obtain ⟨hf, hfx⟩ := hmem f (hl ▸ List.mem_cons_self ..)
    refine ⟨f.obs.1.funcIp, ?_⟩
    have hpairs : (l.filter (Firing.Leaves x)).map (fun g => (g.call, g.link)) =
        ((l.filter (Firing.Leaves x)).map Firing.link).map (x, ·) := by
      rw [List.map_map]
      exact List.map_congr_left fun g hg => Prod.ext (hmem g hg).2.1 rfl
    have hnodup : ((l.filter (Firing.Leaves x)).map Firing.link).Nodup := by
      refine List.Nodup.of_map (x, ·) ?_
      rw [← hpairs]
      exact (List.filter_sublist.map _).nodup h.once
    have hsub : (l.filter (Firing.Leaves x)).map Firing.link ⊆
        linksAt links slide .uretprobe f.obs.1.funcIp := by
      intro i hi
      obtain ⟨g, hg, rfl⟩ := List.mem_map.1 hi
      obtain ⟨hgl, hgx⟩ := hmem g hg
      have hlink := h.attached g hgl
      rwa [hgx.2, ((h.call g hgl f hf (hgx.1.trans hfx.1.symm)).1)] at hlink
    simpa using (hnodup.subperm hsub).length_le

/-- What a record says of the firing that has submitted it. -/
theorem record_of_step {st : EntryTimes} {h : Hit} {r : RawEvent}
    (hr : (watchBpf.step st h).2 = some r) :
    r.isExit = decide (h.probe = .uretprobe) ∧ r.funcAddr = h.funcIp := by
  rw [step_snd] at hr
  by_cases hres : h.reserved = true
  · rw [if_pos hres] at hr
    cases hr
    exact ⟨rfl, rfl⟩
  · rw [if_neg hres] at hr
    cases hr

/-- A firing submits one record, or loses it. -/
theorem length_exitOf_le (s : EntryTimes) :
    ((firedFrom s l).filter (ExitOf x)).length ≤ (l.filter (Firing.Leaves x)).length := by
  induction l generalizing s with
  | nil => rfl
  | cons f l ih =>
    have hone : (((watchBpf.step s f.obs.1).2.map fun r => (f.call, r, f.obs.2)).toList.filter
        (ExitOf x)).length ≤ if f.Leaves x then 1 else 0 := by
      by_cases hf : f.Leaves x
      · rw [if_pos hf]
        exact (List.length_filter_le _ _).trans Option.length_toList_le
      · rw [if_neg hf, List.filter_eq_nil_iff.2]
        · exact le_rfl
        intro d hd hexit
        obtain ⟨r, hr, rfl⟩ := Option.map_eq_some_iff.1 (Option.mem_toList.1 hd)
        obtain ⟨hcall, hisExit⟩ := of_decide_eq_true hexit
        exact hf ⟨hcall, by simpa [(record_of_step hr).1] using hisExit⟩
    rw [firedFrom, List.filter_append, List.length_append, List.filter_cons]
    have ih := ih (watchBpf.step s f.obs.1).1
    simp only [decide_eq_true_eq]
    split_ifs at hone ⊢ with hf
    · rw [List.length_cons]
      omega
    · omega

namespace Watch

variable {τ : Type} (w : Watch)

/-! ## What the loop makes of it -/

/-- The events that the callback adds, each with the tag of the record that it handles. -/
def taggedFrom : WatchState → List (τ × Delivery) → List (τ × WatchEvent)
  | _, [] => []
  | s, d :: ds =>
    ((w.callback s d.2).events.drop s.events.length).map (d.1, ·) ++
      taggedFrom (w.callback s d.2) ds

/-- A poll, with the call that each of its records is of. -/
structure CallPoll where
  stopFlag : Bool
  now : ℤ
  records : List (ℕ × Delivery)

def CallPoll.poll (p : CallPoll) : Poll := ⟨p.stopFlag, p.now, p.records.map Prod.snd⟩

/-- The events of the loop of polls, each with the call that it is of. -/
def callEvents (deadline : ℤ) : List CallPoll → WatchState → List (ℕ × WatchEvent)
  | [], _ => []
  | p :: polls, s =>
    if ¬ (s.events.length : ℤ) < w.maxEvents then []
    else if p.stopFlag then []
    else if deadline ≤ p.now then []
    else w.taggedFrom s p.records ++
      callEvents deadline polls ((p.records.map Prod.snd).foldl w.callback s)

/-- The events of this call. -/
def eventsOfCall (deadline : ℤ) (polls : List CallPoll) (x : ℕ) : List (ℕ × WatchEvent) :=
  (w.callEvents deadline polls start).filter (·.1 = x)

variable {w} {s : WatchState} {deadline : ℤ} {polls : List CallPoll}

theorem map_snd_taggedFrom {ds : List (τ × Delivery)} :
    s.events ++ (w.taggedFrom s ds).map Prod.snd =
      ((ds.map Prod.snd).foldl w.callback s).events := by
  rw [← map_snd_addedFrom]
  congr 1
  induction ds generalizing s with
  | nil => rfl
  | cons d ds ih =>
    rw [taggedFrom, List.map_append, ih, List.map_cons, addedFrom, List.map_append, List.map_map,
      List.map_map]
    rfl

/-- They are the events of the loop. -/
theorem map_snd_callEvents : s.events ++ (w.callEvents deadline polls s).map Prod.snd =
    (w.loop deadline (polls.map CallPoll.poll) s).events := by
  induction polls generalizing s with
  | nil => exact List.append_nil _
  | cons p polls ih =>
    rw [callEvents, List.map_cons, loop]
    change _ = (if _ then _ else if p.stopFlag = true then _ else if deadline ≤ p.now then _ else
      w.loop deadline _ ((p.records.map Prod.snd).foldl w.callback s)).events
    by_cases hmax : (s.events.length : ℤ) < w.maxEvents
    · rw [if_neg (not_not.2 hmax), if_neg (not_not.2 hmax)]
      by_cases hstop : p.stopFlag = true
      · rw [if_pos hstop, if_pos hstop]
        exact List.append_nil _
      · rw [if_neg hstop, if_neg hstop]
        by_cases hnow : deadline ≤ p.now
        · rw [if_pos hnow, if_pos hnow]
          exact List.append_nil _
        · rw [if_neg hnow, if_neg hnow, List.map_append, ← List.append_assoc, map_snd_taggedFrom]
          exact ih
    · rw [if_pos hmax, if_pos hmax]
      exact List.append_nil _

/-- A record makes one event at most, and none if it is of an entry. -/
theorem length_drop_callback (s : WatchState) (d : Delivery) :
    ((w.callback s d).events.drop s.events.length).length ≤ if d.1.isExit then 1 else 0 := by
  rw [List.length_drop]
  unfold callback
  split_ifs <;> (try split) <;> simp_all

theorem length_taggedFrom_le {ds : List (ℕ × Delivery)} {x : ℕ} :
    ((w.taggedFrom s ds).filter (·.1 = x)).length ≤ (ds.filter (ExitOf x)).length := by
  induction ds generalizing s with
  | nil => rfl
  | cons d ds ih =>
    have hone : ((((w.callback s d.2).events.drop s.events.length).map (d.1, ·)).filter
        (·.1 = x)).length ≤ if ExitOf x d then 1 else 0 := by
      by_cases hx : d.1 = x
      · refine (List.length_filter_le _ _).trans ?_
        rw [List.length_map]
        refine (length_drop_callback s d.2).trans (le_of_eq (if_congr ?_ rfl rfl))
        exact (and_iff_right hx).symm
      · rw [List.filter_eq_nil_iff.2]
        · exact Nat.zero_le _
        · intro e he
          obtain ⟨_, -, rfl⟩ := List.mem_map.1 he
          simpa using hx
    rw [taggedFrom, List.filter_append, List.length_append, List.filter_cons]
    have ih := ih (s := w.callback s d.2)
    simp only [decide_eq_true_eq]
    split_ifs at hone ⊢
    · rw [List.length_cons]
      omega
    · omega

theorem length_callEvents_le {x : ℕ} : ((w.callEvents deadline polls s).filter (·.1 = x)).length ≤
    ((polls.flatMap CallPoll.records).filter (ExitOf x)).length := by
  induction polls generalizing s with
  | nil => rfl
  | cons p polls ih =>
    rw [callEvents, List.flatMap_cons, List.filter_append, List.length_append]
    split_ifs
    · exact Nat.zero_le _
    · exact Nat.zero_le _
    · rw [List.filter_append, List.length_append]
      exact Nat.add_le_add length_taggedFrom_le ih
    · exact Nat.zero_le _

/-- No call has more events than there are. -/
theorem length_eventsOfCall_le {x : ℕ} : (w.eventsOfCall deadline polls x).length ≤
    (w.loop deadline (polls.map CallPoll.poll) start).events.length := by
  rw [← map_snd_callEvents, eventsOfCall, List.length_append, List.length_map]
  exact (List.length_filter_le _ _).trans (Nat.le_add_left _ _)

/-- Without room there are none. -/
theorem callEvents_of_full (h : w.maxEvents ≤ s.events.length) :
    w.callEvents deadline polls s = [] := by
  cases polls with
  | nil => rfl
  | cons p polls => rw [callEvents, if_pos (not_lt.2 h)]

/-- Without time there are none. -/
theorem callEvents_of_late (h : ∀ p ∈ polls, deadline ≤ p.now) :
    w.callEvents deadline polls s = [] := by
  cases polls with
  | nil => rfl
  | cons p polls => rw [callEvents, if_pos (h p (List.mem_cons_self ..)), ite_self, ite_self]

/-- **What exits add**: one event each, as long as there are not too many. -/
theorem le_length_foldl {ds : List Delivery}
    (htarget : ∀ d ∈ ds, ∃ p, w.target d.1.funcAddr = some p)
    (hs : (s.events.length : ℤ) ≤ w.maxEvents) :
    min ((s.events.length : ℤ) + ds.countP (·.1.isExit)) w.maxEvents ≤
      (ds.foldl w.callback s).events.length := by
  induction ds generalizing s with
  | nil => simp
  | cons d ds ih =>
    obtain ⟨⟨idx, fi⟩, hp⟩ := htarget d (List.mem_cons_self ..)
    have ih := ih (s := w.callback s d) (fun d hd => htarget d (List.mem_cons_of_mem _ hd))
      (length_callback hs d)
    have hgrow : min ((s.events.length : ℤ) + if d.1.isExit then 1 else 0) w.maxEvents ≤
        (w.callback s d).events.length := by
      rw [callback, hp]
      by_cases hd : d.1.isExit = true
      · rw [if_pos hd, if_neg (by simp [hd])]
        split_ifs with hfull
        · omega
        · rw [List.length_append, List.length_singleton]
          omega
      · rw [if_neg hd, if_pos (by simpa using hd)]
        change _ ≤ (s.events.length : ℤ)
        omega
    rw [List.foldl_cons, List.countP_cons]
    split_ifs at hgrow ⊢ <;> push_cast <;> omega

end Watch

/-! ## The links of the targets -/

/-- `attach` keeps a link of each kind. -/
theorem UprobeLoader.post_attach_probes {sys : UprobeSystem} {loader : UprobeLoader}
    {funcAddress : Addr} : Post (attach sys funcAddress) loader
      (fun _ l => ∃ path, l.probes = loader.probes ++
        [⟨false, loader.pid, path, funcAddress⟩, ⟨true, loader.pid, path, funcAddress⟩])
      fun _ _ => True := by
  rw [attach, exePath]
  cases sys.exe with
  | none => trivial
  | some path =>
    simp only [post_bind, post_ite, post_throw, post_pure, post_get, post_attachUprobe_iff,
      implies_true, true_and, and_true]
    intro _ _ _ _
    exact ⟨path.take 511, by simp [probes, linked]⟩

/-- What the links of these targets probe. -/
def probePoints (targets : List FuncInfo) : List (Bool × Addr) :=
  targets.flatMap fun fi => [(false, fi.address), (true, fi.address)]

/-- What a call probes. -/
def UprobeCall.point (call : UprobeCall) : Bool × Addr := (call.retprobe, call.funcOffset)

theorem WatchChecked.post_attachAll_points {sys : ℕ → UprobeSystem} {targets : List FuncInfo}
    {w : World R} : Post (attachAll sys targets) w
      (fun _ t => t.loader.probes.map UprobeCall.point =
        w.loader.probes.map UprobeCall.point ++ probePoints targets) fun _ _ => True := by
  induction targets generalizing w sys with
  | nil => exact (List.append_nil _).symm
  | cons fi targets ih =>
    rw [attachAll, post_bind, Post, attach]
    cases hattach : UprobeLoader.attach (sys 0) fi.address w.loader with
    | error e l => trivial
    | ok _ l =>
      obtain ⟨path, hlinks⟩ := UprobeLoader.post_attach_probes.ok hattach
      refine ih.mono (fun _ t ht => ?_) fun _ _ h => h
      rw [ht, World.attached, hlinks, List.map_append, List.append_assoc]
      rfl

/-- **As many links** of either kind are at an address as there are targets. -/
theorem length_linksAt {targets : List FuncInfo}
    (h : links.map UprobeCall.point = probePoints targets) (probe : Probe) (addr : Addr) :
    (linksAt links slide probe addr).length =
      targets.countP fun fi => fi.address + slide = addr := by
  have hpoints : (linksAt links slide probe addr).length = (links.map UprobeCall.point).countP
      fun p => p.1 = decide (probe = .uretprobe) ∧ p.2 + slide = addr := by
    rw [linksAt, List.length_map, ← List.countP_eq_length_filter, List.countP_map]
    conv_rhs => rw [← List.zipIdx_map_fst 0 links, List.countP_map]
    rfl
  rw [hpoints, h]
  clear h hpoints
  induction targets with
  | nil => rfl
  | cons fi targets ih =>
    have hcons : probePoints (fi :: targets) =
        (false, fi.address) :: (true, fi.address) :: probePoints targets := rfl
    rw [hcons, List.countP_cons, List.countP_cons, List.countP_cons, ih]
    cases probe <;> by_cases haddr : fi.address + slide = addr <;> simp [haddr]

/-! ## A call of a function that is two targets -/

/-- One call of the function at this address. -/
def oneCall (links : List UprobeCall) (slide : Word) (addr : Addr) : List Firing :=
  (linksAt links slide .uprobe addr).map (⟨0, ·, Watch.observe .uprobe addr 0 true⟩) ++
    (linksAt links slide .uretprobe addr).map (⟨0, ·, Watch.observe .uretprobe addr 0 true⟩)

theorem mem_oneCall {f : Firing} : f ∈ oneCall links slide addr ↔
    f.call = 0 ∧ f.link ∈ linksAt links slide f.obs.1.probe addr ∧
      f.obs = Watch.observe f.obs.1.probe addr 0 true := by
  rw [oneCall, List.mem_append, List.mem_map, List.mem_map]
  constructor
  · rintro (⟨i, hi, rfl⟩ | ⟨i, hi, rfl⟩)
    · exact ⟨rfl, hi, rfl⟩
    · exact ⟨rfl, hi, rfl⟩
  · obtain ⟨call, link, obs⟩ := f
    rintro ⟨rfl, hlink, hobs⟩
    cases hp : obs.1.probe with
    | uprobe =>
      rw [hp] at hlink hobs
      exact .inl ⟨link, hlink, congrArg (Firing.mk 0 link) hobs.symm⟩
    | uretprobe =>
      rw [hp] at hlink hobs
      exact .inr ⟨link, hlink, congrArg (Firing.mk 0 link) hobs.symm⟩

/-- The kernel may do this. -/
theorem fires_oneCall (links : List UprobeCall) (slide : Word) (addr : Addr) :
    Fires links slide (oneCall links slide addr) where
  attached f hf := by
    obtain ⟨-, hlink, hobs⟩ := mem_oneCall.1 hf
    rw [hobs]
    exact hlink
  once := by
    have hmap : (oneCall links slide addr).map (fun f => (f.call, f.link)) =
        (linksAt links slide .uprobe addr ++ linksAt links slide .uretprobe addr).map (0, ·) := by
      simp [oneCall, Function.comp_def]
    rw [hmap]
    refine List.Nodup.map (fun _ _ h => (Prod.mk.inj h).2) (List.nodup_append.2
      ⟨nodup_linksAt .., nodup_linksAt .., fun i hi j hj hij => ?_⟩)
    subst hij
    obtain ⟨c, hc, hentry, -⟩ := mem_linksAt.1 hi
    obtain ⟨c', hc', hexit, -⟩ := mem_linksAt.1 hj
    cases hc.symm.trans hc'
    cases hentry.symm.trans hexit
  all f hf i hi := by
    obtain ⟨hcall, -, hobs⟩ := mem_oneCall.1 hf
    refine ⟨⟨0, i, f.obs⟩, mem_oneCall.2 ⟨rfl, ?_, hobs⟩, hcall.symm, rfl⟩
    rw [hobs] at hi
    exact hi
  call f hf g hg _ := by
    rw [(mem_oneCall.1 hf).2.2, (mem_oneCall.1 hg).2.2]
    exact ⟨rfl, rfl⟩
  order := by
    rw [oneCall, List.pairwise_append, List.pairwise_map, List.pairwise_map]
    refine ⟨List.pairwise_of_forall fun _ _ _ hexit => ?_,
      List.pairwise_of_forall fun _ _ _ _ => rfl, fun f _ g hg _ _ => ?_⟩
    · cases hexit
    · obtain ⟨_, -, rfl⟩ := List.mem_map.1 hg
      rfl

/-- When no record is lost, every exit is delivered. -/
theorem countP_firedFrom (s : EntryTimes) (hkept : ∀ f ∈ l, f.obs.1.reserved = true) :
    ((firedFrom s l).map Prod.snd).countP (·.1.isExit) =
      l.countP fun f => f.obs.1.probe = .uretprobe := by
  induction l generalizing s with
  | nil => rfl
  | cons f l ih =>
    have hf := hkept f (List.mem_cons_self ..)
    rw [firedFrom, step_snd, if_pos hf, List.map_append, List.countP_append,
      ih _ fun g hg => hkept g (List.mem_cons_of_mem _ hg), List.countP_cons, Nat.add_comm]
    simp [List.countP_cons]

/-- Every record is of a firing. -/
theorem mem_firedFrom (s : EntryTimes) {d : ℕ × Delivery} (hd : d ∈ firedFrom s l) :
    ∃ f ∈ l, d.1 = f.call ∧ d.2.1.funcAddr = f.obs.1.funcIp := by
  induction l generalizing s with
  | nil => cases hd
  | cons f l ih =>
    rw [firedFrom] at hd
    obtain hd | hd := List.mem_append.1 hd
    · obtain ⟨r, hr, rfl⟩ := Option.map_eq_some_iff.1 (Option.mem_toList.1 hd)
      exact ⟨f, List.mem_cons_self .., rfl, (record_of_step hr).2⟩
    · obtain ⟨g, hg, heq⟩ := ih _ hd
      exact ⟨g, List.mem_cons_of_mem _ hg, heq⟩

/-- All of these records are handled. -/
theorem Watch.events_onePoll {w : Watch} {deadline now : ℤ} {ds : List (ℕ × Delivery)}
    (hmax : 0 < w.maxEvents) (hnow : now < deadline) :
    w.callEvents deadline [⟨false, now, ds⟩] start = w.taggedFrom start ds := by
  have hroom : ((start : WatchState).events.length : ℤ) < w.maxEvents := hmax
  rw [callEvents, if_neg (not_not.2 hroom), if_neg Bool.false_ne_true, if_neg (not_le.2 hnow)]
  exact List.append_nil _

/-- An event has the tag of a record. -/
theorem Watch.mem_taggedFrom {τ : Type} {w : Watch} {s : WatchState} {ds : List (τ × Delivery)}
    {e : τ × WatchEvent} (he : e ∈ w.taggedFrom s ds) : ∃ d ∈ ds, d.1 = e.1 := by
  induction ds generalizing s with
  | nil => cases he
  | cons d ds ih =>
    rw [taggedFrom] at he
    obtain he | he := List.mem_append.1 he
    · obtain ⟨ev, -, rfl⟩ := List.mem_map.1 he
      exact ⟨d, List.mem_cons_self .., rfl⟩
    · obtain ⟨d', hd', heq⟩ := ih he
      exact ⟨d', List.mem_cons_of_mem _ hd', heq⟩

/-- **A call of two targets at one address** yields two events. -/
theorem Watch.two_le_eventsOfCall {w : Watch} {deadline now : ℤ}
    (h : links.map UprobeCall.point = probePoints w.targets)
    (htwo : 2 ≤ w.targets.countP fun fi => fi.address + w.slide = addr) (hmax : 2 ≤ w.maxEvents)
    (hnow : now < deadline) :
    2 ≤ (w.eventsOfCall deadline [⟨false, now, fired (oneCall links w.slide addr)⟩] 0).length := by
  obtain ⟨fi, hfi, haddr⟩ := List.countP_pos_iff.1 (Nat.lt_of_lt_of_le Nat.two_pos htwo)
  have htarget : ∃ p, w.target addr = some p := by
    rw [← of_decide_eq_true haddr]
    exact exists_target hfi
  have hobs : ∀ f ∈ oneCall links w.slide addr, f.call = 0 ∧ f.obs.1.funcIp = addr ∧
      f.obs.1.reserved = true := by
    intro f hf
    obtain ⟨hcall, -, hobs⟩ := mem_oneCall.1 hf
    rw [hobs]
    exact ⟨hcall, rfl, rfl⟩
  -- every event is of this call
  have hall : w.eventsOfCall deadline [⟨false, now, fired (oneCall links w.slide addr)⟩] 0 =
      w.taggedFrom start (fired (oneCall links w.slide addr)) := by
    rw [eventsOfCall, events_onePoll (by omega) hnow]
    refine List.filter_eq_self.2 fun e he => decide_eq_true ?_
    obtain ⟨d, hd, heq⟩ := mem_taggedFrom he
    obtain ⟨f, hf, hcall, -⟩ := mem_firedFrom _ hd
    rw [← heq, hcall, (hobs f hf).1]
  have hexits : ((fired (oneCall links w.slide addr)).map Prod.snd).countP (·.1.isExit) =
      w.targets.countP fun fi => fi.address + w.slide = addr := by
    rw [fired, countP_firedFrom _ fun f hf => (hobs f hf).2.2, oneCall, List.countP_append,
      List.countP_map, List.countP_map, ← length_linksAt h .uretprobe addr]
    simp [Function.comp_def, Watch.observe]
  have htargets : ∀ d ∈ (fired (oneCall links w.slide addr)).map Prod.snd,
      ∃ p, w.target d.1.funcAddr = some p := by
    intro d hd
    obtain ⟨d', hd', rfl⟩ := List.mem_map.1 hd
    obtain ⟨f, hf, -, hip⟩ := mem_firedFrom _ hd'
    rw [hip, (hobs f hf).2.1]
    exact htarget
  have hle := le_length_foldl (s := start) htargets (show (0 : ℤ) ≤ w.maxEvents by omega)
  rw [hexits, ← map_snd_taggedFrom] at hle
  simp only [start, List.nil_append, List.length_map, List.length_nil] at hle
  rw [hall]
  change _ ≤ (w.taggedFrom ⟨∅, []⟩ _).length
  omega

/-! ## The command -/

namespace WatchChecked

variable {A : Arch R} {impl : Impl} {regex : RegexEngine} {funcName : Text}
  {maxEvents timeoutMs : ℤ} {env : WatchScript R} {targets : List FuncInfo} {w w' t : World R}
  {watch : Watch} {evs : List WatchEvent}

theorem probes_openLoader : Post (openLoader env) w (fun _ t => t.loader.probes = [])
    fun _ _ => True := by
  simp only [openLoader, post_bind, post_modify, post_ite, post_pure, post_throw]
  exact ⟨fun _ => ⟨fun _ => rfl, fun _ => trivial⟩, fun _ => trivial⟩

/-- The probes of the targets are attached. -/
theorem points_of_attached
    (h : (openLoader env >>= fun _ => attachAll env.sys targets) w = .ok () t) :
    t.loader.probes.map UprobeCall.point = probePoints targets := by
  obtain ⟨⟨⟩, u, hopen, hattach⟩ := bind_eq_ok h
  rw [post_attachAll_points.ok hattach, probes_openLoader.ok hopen, List.map_nil, List.nil_append]

/-- Then the object could be loaded, and the probes are allowed. -/
theorem allows_of_attached
    (h : (openLoader env >>= fun _ => attachAll env.sys targets) w = .ok () t) :
    env.openObject = true ∧ env.loadObject = true ∧ AllowsAll env.sys w.loader.pid targets := by
  obtain ⟨⟨⟩, u, hopen, hattach⟩ := bind_eq_ok h
  obtain ⟨hobject, hload⟩ := returns_openLoader.1 (returns_of_ok hopen)
  have hall := returns_attachAll.1 (returns_of_ok hattach)
  rw [(framed_openLoader.ok hopen).2.1] at hall
  exact ⟨hobject, hload, hall⟩

/-- The events of a command whose eBPF path completes. -/
theorem events_watchChecked
    (h : watchChecked A impl regex funcName maxEvents timeoutMs env w = .ok (.ok evs) w')
    (htargets : impl.targets regex funcName = .ok targets) (haccess : env.access = true)
    (hcompletes : EbpfCompletes env ⟨targets, impl.getAslrSlide, maxEvents⟩ timeoutMs
      w.loader.pid) :
    evs = (Watch.loop ⟨targets, impl.getAslrSlide, maxEvents⟩
      (env.start + timeoutMs * 1000000) env.polls Watch.start).events := by
  obtain ⟨targets', htargets', h⟩ := watchChecked_eq_ok.1 h
  cases htargets.symm.trans htargets'
  obtain ⟨-, -, hebpf⟩ | ⟨hfails, -⟩ := watchTargets_eq_ok h
  · exact events_ebpfWatch.ok hebpf
  · exact absurd ⟨haccess, hcompletes⟩ hfails

end WatchChecked

/-- Different targets are at different addresses, or two of them are at one. -/
theorem countP_le_one_of_nodup {targets : List FuncInfo} (h : (targets.map FuncInfo.address).Nodup)
    (slide : Word) (addr : Addr) :
    (targets.countP fun fi => fi.address + slide = addr) ≤ 1 := by
  have hcount : (targets.countP fun fi => fi.address + slide = addr) =
      (targets.map FuncInfo.address).count (addr - slide) := by
    rw [List.count, List.countP_map]
    refine List.countP_congr fun fi _ => ?_
    simp [eq_sub_iff_add_eq]
  rw [hcount]
  exact List.nodup_iff_count_le_one.1 h _

theorem exists_two_le_countP {targets : List FuncInfo}
    (h : ¬ (targets.map FuncInfo.address).Nodup) (slide : Word) :
    ∃ addr, 2 ≤ targets.countP fun fi => fi.address + slide = addr := by
  rw [List.nodup_iff_count_le_one] at h
  push Not at h
  obtain ⟨a, ha⟩ := h
  refine ⟨a + slide, ?_⟩
  rw [List.count, List.countP_map] at ha
  refine ha.trans_le (le_of_eq (List.countP_congr fun fi _ => ?_))
  simp

open WatchChecked Watch in
/-- **A call yields one event at most** on the eBPF path, whatever calls there are, exactly if no
two targets are at one address, or no more than one event is asked for, or there is no time. -/
theorem events_once_iff {A : Arch R} {impl : Impl} {regex : RegexEngine} {funcName : Text}
    {maxEvents timeoutMs : ℤ} {env : WatchScript R} {pid : ℤ}
    {session : Session R TraceVars TraceNode} {targets : List FuncInfo} {t : World R}
    (htargets : impl.targets regex funcName = .ok targets) (haccess : env.access = true)
    (hring : AllowsRing env)
    (hattached : (openLoader env >>= fun _ => attachAll env.sys targets)
      ((World.init pid session).act .clearFlag) = .ok () t) :
    let w : Watch := ⟨targets, impl.getAslrSlide, maxEvents⟩
    let deadline := env.start + timeoutMs * 1000000
    (∀ polls evs u, watchChecked A impl regex funcName maxEvents timeoutMs
        { env with polls := polls.map CallPoll.poll } (World.init pid session) = .ok (.ok evs) u →
      evs = (w.callEvents deadline polls start).map Prod.snd) ∧
    ((∀ polls l, Fires t.loader.probes impl.getAslrSlide l →
        polls.flatMap CallPoll.records <+: fired l → (∀ p ∈ polls, env.start ≤ p.now) →
        ∀ x, (w.eventsOfCall deadline polls x).length ≤ 1) ↔
      (targets.map FuncInfo.address).Nodup ∨ maxEvents ≤ 1 ∨ timeoutMs ≤ 0) := by
  intro w deadline
  have hpoints := points_of_attached hattached
  refine ⟨fun polls evs u hrun => ?_, fun honce => ?_, ?_⟩
  · obtain ⟨hopened, hloaded, hall⟩ := allows_of_attached hattached
    rw [events_watchChecked hrun htargets haccess ⟨hopened, hloaded, hall, fun _ => hring⟩]
    exact map_snd_callEvents.symm
  · by_contra hnot
    simp only [not_or, not_le] at hnot
    obtain ⟨hdup, hmax, htimeout⟩ := hnot
    obtain ⟨addr, htwo⟩ := exists_two_le_countP hdup impl.getAslrSlide
    have hnow : env.start < deadline := by omega
    have hle := two_le_eventsOfCall (w := w) hpoints htwo hmax hnow
    have hle' := honce [⟨false, env.start, fired (oneCall t.loader.probes w.slide addr)⟩]
      (oneCall t.loader.probes w.slide addr) (fires_oneCall ..) ?_ ?_ 0
    · omega
    · rw [List.flatMap_cons, List.flatMap_nil, List.append_nil]
    · intro p hp
      obtain rfl := List.mem_singleton.1 hp
      exact le_rfl
  · rintro (hnodup | hmax | htimeout) polls l hl hrecords hnow x
    · obtain ⟨addr, hleaves⟩ := hl.length_leaves_le x
      calc (w.eventsOfCall deadline polls x).length
          ≤ ((polls.flatMap CallPoll.records).filter (ExitOf x)).length := length_callEvents_le
        _ ≤ ((fired l).filter (ExitOf x)).length := (hrecords.sublist.filter _).length_le
        _ ≤ (l.filter (Firing.Leaves x)).length := length_exitOf_le _
        _ ≤ (linksAt t.loader.probes impl.getAslrSlide .uretprobe addr).length := hleaves
        _ = targets.countP fun fi => fi.address + impl.getAslrSlide = addr :=
          length_linksAt hpoints .uretprobe addr
        _ ≤ 1 := countP_le_one_of_nodup hnodup _ _
    · by_cases hpos : 0 ≤ maxEvents
      · have hloop : ((w.loop deadline (polls.map CallPoll.poll) start).events.length : ℤ) ≤
            maxEvents := length_loop (w := w) hpos
        have hle : (w.eventsOfCall deadline polls x).length ≤ _ := length_eventsOfCall_le
        omega
      · have hfull : w.maxEvents ≤ ((start : WatchState).events.length : ℤ) := le_of_not_ge hpos
        rw [eventsOfCall, callEvents_of_full hfull]
        exact Nat.zero_le _
    · rw [eventsOfCall, callEvents_of_late fun p hp => ?_]
      · exact Nat.zero_le _
      · have := hnow p hp
        omega

/-! ## A function with two names -/

/-- A process with `f` and `g` at these addresses. -/
def Impl.twoAt (a b : Addr) : Impl :=
  { Impl.single with finder := .ok ⟨[Watch.intFunc "f".toList a, Watch.intFunc "g".toList b]⟩ }

/-- They are watched for two events. -/
def Watch.twoAt (a b : Addr) : Watch :=
  ⟨[intFunc "f".toList a, intFunc "g".toList b], (Impl.twoAt a b).getAslrSlide, 2⟩

/-- The eBPF path works, and polls these records. -/
def WatchScript.ebpf (polls : List Watch.CallPoll) : WatchScript X86Regs :=
  ⟨true, true, true, fun _ => .allowed, 0, true, true, polls.map Watch.CallPoll.poll,
    fun _ => .sampling []⟩

/-- The links, where the linker has folded `g` into `f`. -/
def foldedLinks : List UprobeCall :=
  [⟨false, 1, "/bin/app".toList, 0x1000⟩, ⟨true, 1, "/bin/app".toList, 0x1000⟩,
    ⟨false, 1, "/bin/app".toList, 0x1000⟩, ⟨true, 1, "/bin/app".toList, 0x1000⟩]

/-- The records of the first call of the function are polled at once. -/
def foldedPolls : List Watch.CallPoll := [⟨false, 0, fired (oneCall foldedLinks 0 0x1000)⟩]

open WatchChecked Watch in
/-- A function is called once, and two events are returned. -/
theorem events_twice : ∃ t evs w,
    (openLoader (.ebpf foldedPolls) >>=
        fun _ => attachAll (fun _ => .allowed) (twoAt 0x1000 0x1000).targets)
      ((World.init 1 (Session.single default)).act .clearFlag) = .ok () t ∧
    Fires t.loader.probes (twoAt 0x1000 0x1000).slide (oneCall foldedLinks 0 0x1000) ∧
    watchChecked x86_64 (.twoAt 0x1000 0x1000) .all ".*".toList 2 1000 (.ebpf foldedPolls)
      (World.init 1 (Session.single default)) = .ok (.ok evs) w ∧
    evs = ((twoAt 0x1000 0x1000).callEvents 1000000000 foldedPolls start).map Prod.snd ∧
    ¬ ∀ x, ((twoAt 0x1000 0x1000).eventsOfCall 1000000000 foldedPolls x).length ≤ 1 := by
  have htwo : eventCount (watchChecked x86_64 (.twoAt 0x1000 0x1000) .all ".*".toList 2 1000
      (.ebpf foldedPolls) (World.init 1 (Session.single default))) = 2 := by decide +kernel
  obtain ⟨evs, w, hrun, -⟩ := exists_of_eventCount Nat.zero_lt_two htwo
  refine ⟨_, evs, w, rfl, fires_oneCall .., hrun, ?_, fun hone => ?_⟩
  · obtain ⟨hopened, hloaded, hall⟩ := allows_of_attached
      (show (openLoader (.ebpf foldedPolls) >>=
          fun _ => attachAll (fun _ => .allowed) (twoAt 0x1000 0x1000).targets)
        ((World.init 1 (Session.single default)).act .clearFlag) = .ok () _ from rfl)
    rw [events_watchChecked hrun rfl rfl ⟨hopened, hloaded, hall, fun _ => ⟨rfl, rfl⟩⟩]
    exact map_snd_callEvents.symm
  · exact absurd (hone 0) (by decide +kernel)

open WatchChecked Watch in
/-- Of functions at two addresses, whatever is called, a call yields one event at most. -/
theorem events_once_iff_pair : ∃ t,
    (openLoader (.ebpf []) >>=
        fun _ => attachAll (fun _ => .allowed) (twoAt 0x1000 0x1010).targets)
      ((World.init 1 (Session.single default)).act .clearFlag) = .ok () t ∧
    ∀ polls l, Fires t.loader.probes (twoAt 0x1000 0x1010).slide l →
      polls.flatMap CallPoll.records <+: fired l → (∀ p ∈ polls, 0 ≤ p.now) → ∀ x,
      ((twoAt 0x1000 0x1010).eventsOfCall 1000000000 polls x).length ≤ 1 := by
  have htargets : (Impl.twoAt 0x1000 0x1010).targets .all ".*".toList =
      .ok (twoAt 0x1000 0x1010).targets := rfl
  refine ⟨_, rfl, ?_⟩
  exact (@events_once_iff X86Regs x86_64 _ _ _ 2 1000 (.ebpf []) 1 (Session.single default) _ _
    htargets rfl ⟨rfl, rfl⟩ rfl).2.2 (.inl (by decide))

end Uatu
