import Uatu.Ebpf.Durations

/-!
# The depth of calls

`call_depth` has, for each thread, one less than the number of its active calls, and nothing for a
thread without any. This is so after each step of a run in which the calls of each thread are
nested, whatever the threads are doing in between and whatever becomes of the records
(`TraceBpf.depth_callDepth`). So the records of a call have the number of calls around it, and a
thread leaves nothing behind (`depthsKept`).
-/

namespace Uatu

open Nesting

/-! ## Runs -/

/-- How many probed calls of a thread are active after a run. -/
def activeCalls (t : Tid) (l : List Hit) : ℕ := active probedCalls 0 (hitsOf t l)

/-- The calls of each thread are nested, with an exit for each entry. There is room for the threads
in the maps, and for the depths in 32 bits. -/
structure WellNested (l : List Hit) : Prop where
  threads : FewThreads l
  nested : ∀ t, Balanced probedCalls (hitsOf t l)
  shallow : ∀ pre, pre <+: l → ∀ t, activeCalls t pre ≤ 2 ^ 32

section Active

variable {l pre post : List Hit} {h : Hit} {t : Tid}

theorem FewThreads.of_append (h : FewThreads (pre ++ post)) : FewThreads pre := by
  obtain ⟨threads, hlen, hmem⟩ := h
  exact ⟨threads, hlen, fun x hx => hmem x (List.mem_append_left post hx)⟩

theorem hitsOf_append : hitsOf t (pre ++ post) = hitsOf t pre ++ hitsOf t post :=
  List.filter_append ..

theorem hitsOf_concat_self : hitsOf h.tid (l ++ [h]) = hitsOf h.tid l ++ [h] := by
  simp [hitsOf]

theorem hitsOf_concat_of_ne (ht : h.tid ≠ t) : hitsOf t (l ++ [h]) = hitsOf t l := by
  simp [hitsOf, ht]

theorem activeCalls_concat_of_ne (ht : h.tid ≠ t) : activeCalls t (l ++ [h]) = activeCalls t l := by
  rw [activeCalls, hitsOf_concat_of_ne ht, activeCalls]

theorem activeCalls_entry (hp : h.probe = .uprobe) :
    activeCalls h.tid (l ++ [h]) = activeCalls h.tid l + 1 := by
  rw [activeCalls, hitsOf_concat_self, active_append, active_opens (by simp [probedCalls, hp])]
  rfl

theorem activeCalls_exit (hp : h.probe = .uretprobe) :
    activeCalls h.tid (l ++ [h]) = activeCalls h.tid l - 1 := by
  rw [activeCalls, hitsOf_concat_self, active_append, active_closes (by simp [probedCalls, hp])]
  rfl

/-- An exit is that of an active call. -/
theorem activeCalls_pos (hl : Balanced probedCalls (hitsOf h.tid (pre ++ h :: post)))
    (hp : h.probe = .uretprobe) : 0 < activeCalls h.tid pre := by
  apply hl.lt_active (s := hitsOf h.tid post) (y := h)
  · rw [hitsOf_append, hitsOf, hitsOf, hitsOf, List.filter_cons_of_pos (by simp)]
  · simp [probedCalls, hp]

end Active

/-! ## Maps -/

namespace TraceBpf

theorem callDepth_entry (maps : Maps) {h : Hit} (hp : h.probe = .uprobe) :
    (traceBpf.step maps h).1.callDepth =
      maps.callDepth.update h.tid ((maps.callDepth.lookup h.tid).elim 0 (· + 1)) := by
  simp only [traceBpf, hp, traceEntry]
  split_ifs <;> rfl

theorem callDepth_exit (maps : Maps) {h : Hit} (hp : h.probe = .uretprobe) :
    (traceBpf.step maps h).1.callDepth =
      if (maps.callDepth.lookup h.tid).getD 0 > 0 then
        maps.callDepth.update h.tid ((maps.callDepth.lookup h.tid).getD 0 - 1)
      else maps.callDepth.delete h.tid := by
  simp only [traceBpf, hp, traceExit]
  split_ifs <;> rfl

/-- With room in the map, an exit takes one off, or deletes the entry. -/
theorem lookup_callDepth_exit {maps : Maps} {h : Hit} {threads : List Tid}
    (hkeys : maps.callDepth.entries.keys ⊆ threads) (hmem : h.tid ∈ threads)
    (hlen : threads.length ≤ maxEntries) (hp : h.probe = .uretprobe) :
    (traceBpf.step maps h).1.callDepth.lookup h.tid =
      if (maps.callDepth.lookup h.tid).getD 0 > 0 then
        some ((maps.callDepth.lookup h.tid).getD 0 - 1)
      else none := by
  rw [callDepth_exit maps hp]
  split_ifs
  · exact BoundedMap.lookup_update_self hkeys hmem hlen
  · exact BoundedMap.lookup_delete_self

theorem ownEntry_callDepth : traceBpf.OwnEntry Maps.callDepth where
  init := rfl
  step maps h := by
    cases hp : h.probe with
    | uprobe => exact .inl ⟨_, callDepth_entry maps hp⟩
    | uretprobe =>
      rw [callDepth_exit maps hp]
      split_ifs
      · exact .inl ⟨_, rfl⟩
      · exact .inr rfl

/-- What a map holds for a thread with so many active calls: one less, or nothing. -/
def Depth (d : Option (BitVec 32)) (a : ℕ) : Prop :=
  d.map BitVec.toNat = if a = 0 then none else some (a - 1)

theorem Depth.of_zero {d : Option (BitVec 32)} (h : Depth d 0) : d = none :=
  Option.map_eq_none_iff.1 h

theorem Depth.of_succ {d : Option (BitVec 32)} {a : ℕ} (h : Depth d (a + 1)) :
    ∃ v : BitVec 32, d = some v ∧ v.toNat = a := by
  obtain ⟨v, hv, ha⟩ := Option.map_eq_some_iff.1 (h.trans (if_neg (Nat.succ_ne_zero a)))
  exact ⟨v, hv, ha⟩

/-- The depth of an entry is the number of calls before it. -/
theorem Depth.toNat_entry {d : Option (BitVec 32)} {a : ℕ} (h : Depth d a) (ha : a < 2 ^ 32) :
    (d.elim 0 (· + 1)).toNat = a := by
  cases a with
  | zero => rw [h.of_zero]; rfl
  | succ a =>
    obtain ⟨v, rfl, hv⟩ := h.of_succ
    rw [Option.elim_some, BitVec.toNat_add, hv]
    exact Nat.mod_eq_of_lt ha

theorem Depth.entry {d : Option (BitVec 32)} {a : ℕ} (h : Depth d a) (ha : a < 2 ^ 32) :
    Depth (some (d.elim 0 (· + 1))) (a + 1) := by
  rw [Depth, Option.map_some, h.toNat_entry ha, if_neg (Nat.succ_ne_zero a), Nat.add_sub_cancel]

/-- The last exit of a thread deletes what is there. -/
theorem Depth.exit {d : Option (BitVec 32)} {a : ℕ} (h : Depth d (a + 1)) :
    Depth (if d.getD 0 > 0 then some (d.getD 0 - 1) else none) a := by
  obtain ⟨v, rfl, hv⟩ := h.of_succ
  rw [Option.getD_some]
  cases a with
  | zero =>
    rw [BitVec.eq_of_toNat_eq (x := v) (y := 0) hv, if_neg (by decide)]
    rfl
  | succ a =>
    have hone : (1 : BitVec 32) ≤ v := by
      rw [BitVec.le_def, hv]
      exact Nat.le_add_left 1 a
    rw [if_pos (BitVec.lt_def.2 (by rw [hv]; exact Nat.succ_pos a)), Depth, Option.map_some,
      BitVec.toNat_sub_of_le hone, hv, if_neg (Nat.succ_ne_zero a)]
    rfl

variable {l : List Hit}

/-- **What a thread has in `call_depth`**, at any time of a run. -/
theorem depth_callDepth (h : WellNested l) {pre post : List Hit} (hl : l = pre ++ post) (t : Tid) :
    Depth ((traceBpf.state pre).callDepth.lookup t) (activeCalls t pre) := by
  induction pre using List.reverseRecOn generalizing post t with
  | nil => rfl
  | append_singleton pre x ih =>
    have hl' : l = pre ++ x :: post := by rw [hl, List.append_assoc]; rfl
    by_cases ht : x.tid = t
    · have ih := ih hl' t
      obtain ⟨threads, hlen, hmem⟩ := h.threads
      rw [hl'] at hmem
      have hkeys : ((traceBpf.state pre).callDepth).entries.keys ⊆ threads :=
        ownEntry_callDepth.keys_subset fun y hy => hmem y (List.mem_append_left _ hy)
      have hx := hmem x (by simp)
      rw [← ht] at ih ⊢
      rw [traceBpf.state_concat]
      cases hp : x.probe with
      | uprobe =>
        have hle := h.shallow (pre ++ [x]) ⟨post, hl.symm⟩ x.tid
        rw [activeCalls_entry hp] at hle ⊢
        rw [callDepth_entry _ hp, BoundedMap.lookup_update_self hkeys hx hlen]
        exact ih.entry hle
      | uretprobe =>
        have hnested := h.nested x.tid
        rw [hl'] at hnested
        obtain ⟨a, ha⟩ := Nat.exists_eq_add_one.2 (activeCalls_pos hnested hp)
        rw [activeCalls_exit hp, lookup_callDepth_exit hkeys hx hlen hp]
        rw [ha] at ih ⊢
        exact ih.exit
    · rw [activeCalls_concat_of_ne ht, ownEntry_callDepth.lookup_of_ne ht]
      exact ih hl' t

end TraceBpf

/-! ## Records -/

section Records

variable {l pre mid post : List Hit} {x y : Hit} {t : Tid}

/-- A thread without active calls has no time left, in either object. -/
theorem Stamping.lookup_idle {σ ε : Type} {obj : BpfObject σ ε} (P : Stamping obj)
    (hl : FewThreads l) (ht : activeCalls t l = 0) : (P.times (obj.state l)).lookup t = none := by
  rw [P.lookup_run hl]
  rcases (hitsOf t l).eq_nil_or_concat' with hnil | ⟨hits, h, hlast⟩
  · rw [hnil]
    rfl
  · rw [hlast, List.getLast?_concat, Option.bind_some, Hit.stamp, if_neg]
    intro hp
    rw [activeCalls, hlast, active_append, active_opens (by simp [probedCalls, hp])] at ht
    exact Nat.succ_ne_zero _ ht

/-- The record of a hit, at its place among those of a run. -/
def BpfObject.Records {σ ε : Type} (obj : BpfObject σ ε) (pre : List Hit) (x : Hit)
    (post : List Hit) (ev : ε) : Prop :=
  (obj.step (obj.state pre) x).2 = some ev ∧
    ∃ after, obj.submitted (pre ++ x :: post) = obj.submitted pre ++ ev :: after

theorem TraceBpf.event_entry (maps : Maps) (hp : x.probe = .uprobe) (hr : x.reserved = true) :
    ∃ ev, (traceBpf.step maps x).2 = some ev ∧ ev.tid = x.tid ∧ ev.isExit = false ∧
      ev.depth = (maps.callDepth.lookup x.tid).elim 0 (· + 1) := by
  simp [traceBpf, hp, traceEntry, hr]

theorem TraceBpf.event_exit (maps : Maps) (hp : y.probe = .uretprobe) (hr : y.reserved = true) :
    ∃ ev, (traceBpf.step maps y).2 = some ev ∧ ev.tid = y.tid ∧ ev.isExit = true ∧
      ev.depth = (maps.callDepth.lookup y.tid).getD 0 := by
  simp [traceBpf, hp, traceExit, hr]

theorem TraceBpf.records_entry (h : WellNested l) (hl : l = pre ++ x :: post)
    (hp : x.probe = .uprobe) (hr : x.reserved = true) :
    ∃ ev, traceBpf.Records pre x post ev ∧ ev.tid = x.tid ∧ ev.isExit = false ∧
      ev.depth.toNat = activeCalls x.tid pre := by
  have hle := h.shallow (pre ++ [x]) ⟨post, by rw [hl, List.append_assoc]; rfl⟩ x.tid
  rw [activeCalls_entry hp] at hle
  obtain ⟨ev, hev, htid, hexit, hdepth⟩ := event_entry (traceBpf.state pre) hp hr
  refine ⟨ev, ⟨hev, traceBpf.submitted_append_cons post hev⟩, htid, hexit, ?_⟩
  rw [hdepth]
  exact (depth_callDepth h hl x.tid).toNat_entry hle

theorem TraceBpf.records_exit (h : WellNested l) (hl : l = pre ++ x :: mid ++ y :: post)
    (hcall : Invocation x mid y) (hr : y.reserved = true) :
    ∃ ev, traceBpf.Records (pre ++ x :: mid) y post ev ∧ ev.tid = x.tid ∧ ev.isExit = true ∧
      ev.depth.toNat = activeCalls x.tid pre := by
  have hy : y.probe = .uretprobe := by
    cases hp : y.probe with
    | uprobe => simpa [probedCalls, hp] using hcall.closes
    | uretprobe => rfl
  -- the calls made in this one have ended
  have hactive : activeCalls y.tid (pre ++ x :: mid) = activeCalls x.tid pre + 1 := by
    have hhits : hitsOf x.tid (x :: mid) = x :: hitsOf x.tid mid :=
      List.filter_cons_of_pos (by simp)
    rw [hcall.same, activeCalls, hitsOf_append, active_append, hhits, active_opens hcall.opens]
    exact hcall.nested.active_eq _
  have hdepth := depth_callDepth h hl y.tid
  rw [hactive] at hdepth
  obtain ⟨v, hv, ha⟩ := hdepth.of_succ
  obtain ⟨ev, hev, htid, hexit, hval⟩ := event_exit (traceBpf.state (pre ++ x :: mid)) hy hr
  refine ⟨ev, ⟨hev, traceBpf.submitted_append_cons post hev⟩, htid.trans hcall.same, hexit, ?_⟩
  rw [hval, hv]
  exact ha

end Records

/-- The depths of a run, and what is left in the maps. -/
structure DepthsKept (l : List Hit) : Prop where
  /-- `call_depth` has one less than the number of active calls, while there are any. -/
  callDepth : ∀ pre, pre <+: l → ∀ t,
    ((traceBpf.state pre).callDepth.lookup t).map BitVec.toNat =
      if activeCalls t pre = 0 then none else some (activeCalls t pre - 1)
  /-- The record of an entry has the number of calls around it. -/
  entry : ∀ pre x post, l = pre ++ x :: post → x.probe = .uprobe → x.reserved = true →
    ∃ ev, traceBpf.Records pre x post ev ∧ ev.tid = x.tid ∧ ev.isExit = false ∧
      ev.depth.toNat = activeCalls x.tid pre
  /-- So has the record of its exit. -/
  exit : ∀ pre x mid y post, l = pre ++ x :: mid ++ y :: post → Invocation x mid y →
    y.reserved = true →
    ∃ ev, traceBpf.Records (pre ++ x :: mid) y post ev ∧ ev.tid = x.tid ∧ ev.isExit = true ∧
      ev.depth.toNat = activeCalls x.tid pre
  /-- A thread without active calls has nothing left. -/
  idle : ∀ pre, pre <+: l → ∀ t, activeCalls t pre = 0 →
    (traceBpf.state pre).callDepth.lookup t = none ∧
    (traceBpf.state pre).entryTimes.lookup t = none ∧ (watchBpf.state pre).lookup t = none

/-- **Depths are kept** in every run of nested calls, whichever records are lost. -/
theorem depthsKept {l : List Hit} (h : WellNested l) : DepthsKept l where
  callDepth := by
    rintro pre ⟨post, rfl⟩ t
    exact TraceBpf.depth_callDepth h rfl t
  entry _ _ _ hl hp hr := TraceBpf.records_entry h hl hp hr
  exit _ _ _ _ _ hl hcall hr := TraceBpf.records_exit h hl hcall hr
  idle := by
    rintro pre ⟨post, rfl⟩ t ht
    have hdepth := TraceBpf.depth_callDepth h rfl t
    rw [ht] at hdepth
    exact ⟨hdepth.of_zero, TraceBpf.stamping.lookup_idle h.threads.of_append ht,
      WatchBpf.stamping.lookup_idle h.threads.of_append ht⟩

/-! ## Two threads -/

/-- A hit of thread `2`, whose record is lost. -/
def Hit.lost (probe : Probe) (funcIp : Addr) (ktime : Word) : Hit :=
  ⟨probe, 2, ktime, funcIp, fun _ => 0, 0, false⟩

/-- Two calls of thread `1`, one in the other, and between their ends a call of thread `2`. -/
def Hit.twoThreads : List Hit :=
  [.single .uprobe 0x1000 1, .lost .uprobe 0x3000 2, .single .uprobe 0x2000 3,
    .lost .uretprobe 0x3000 4, .single .uretprobe 0x2000 5, .single .uretprobe 0x1000 6]

theorem wellNested_twoThreads : WellNested Hit.twoThreads where
  threads := ⟨[1, 2], by decide, by decide⟩
  nested t := by
    by_cases h₁ : t = 1
    · rw [h₁]
      exact show Balanced probedCalls (Hit.single .uprobe 0x1000 1 ::
        (Hit.leaf 0x2000 3 5 ++ Hit.single .uretprobe 0x1000 6 :: [])) from
        .call rfl rfl rfl balanced_leaf .nil
    · by_cases h₂ : t = 2
      · rw [h₂]
        exact show Balanced probedCalls (Hit.lost .uprobe 0x3000 2 ::
          ([] ++ Hit.lost .uretprobe 0x3000 4 :: [])) from .call rfl rfl rfl .nil .nil
      · have hnil : hitsOf t Hit.twoThreads = [] := by
          rw [hitsOf, List.filter_eq_nil_iff]
          intro x hx htid
          have hall : ∀ x ∈ Hit.twoThreads, x.tid ∈ [1, 2] := by decide
          rcases List.mem_cons.1 (hall x hx) with h | h
          · exact h₁ ((of_decide_eq_true htid).symm.trans h)
          · exact h₂ ((of_decide_eq_true htid).symm.trans (List.mem_singleton.1 h))
        rw [hnil]
        exact .nil
  shallow pre hpre t := by
    have hactive : activeCalls t pre ≤ 0 + (hitsOf t pre).length := active_le
    have hfilter : (hitsOf t pre).length ≤ pre.length := List.length_filter_le ..
    have hlen := hpre.length_le
    change _ ≤ 6 at hlen
    omega

theorem depthsKept_twoThreads : DepthsKept Hit.twoThreads := depthsKept wellNested_twoThreads

end Uatu
