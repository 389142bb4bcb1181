import Uatu.Ebpf.Depths

/-!
# More threads than the maps hold

A full map refuses the entry of a thread. Nothing that it holds is wrong for that: a duration is the
time since the entry of the call, or `0`, however many threads there are (`durations_crowd`), and it
is right under the usual condition as long as there are not too many threads in calls at once. When
no call is active all maps are empty, so that what comes next is as if nothing had been
(`submitted_idle`).
-/

namespace Uatu

open Nesting

/-- There are fewer threads in calls than the maps hold. -/
def Roomy (l : List Hit) : Prop :=
  ∃ threads : List Tid, threads.length < maxEntries ∧ ∀ t, 0 < activeCalls t l → t ∈ threads

/-! ## The times -/

namespace Stamping

variable {σ ε : Type} {obj : BpfObject σ ε} (P : Stamping obj) {l : List Hit} {t : Tid}

/-- A thread has in `entry_times` what its last hit has left, or nothing. -/
theorem lookup_none_or (l : List Hit) (t : Tid) : (P.times (obj.state l)).lookup t = none ∨
    (P.times (obj.state l)).lookup t = ((hitsOf t l).getLast?).bind Hit.stamp := by
  induction l using List.reverseRecOn with
  | nil =>
    rw [BpfObject.state, List.foldl_nil, P.init]
    exact .inl BoundedMap.lookup_empty
  | append_singleton l h ih =>
    by_cases ht : h.tid = t
    · subst ht
      rw [hitsOf_concat_self, List.getLast?_concat, Option.bind_some, Hit.stamp, obj.state_concat]
      cases hp : h.probe with
      | uprobe =>
        rw [P.entry _ _ hp, if_pos rfl]
        exact BoundedMap.lookup_update_self_or.symm.imp_left And.left
      | uretprobe =>
        rw [P.exit _ _ hp]
        exact .inl BoundedMap.lookup_delete_self
    · rw [hitsOf_concat_of_ne ht, P.ownEntry.lookup_of_ne ht]
      exact ih

/-- A thread that is in no call has no time. -/
theorem lookup_of_idle (ht : activeCalls t l = 0) : (P.times (obj.state l)).lookup t = none := by
  rcases P.lookup_none_or l t with hnone | hlast
  · exact hnone
  · rw [hlast]
    rcases (hitsOf t l).eq_nil_or_concat' with hnil | ⟨hits, h, hhits⟩
    · rw [hnil]
      rfl
    · rw [hhits, List.getLast?_concat, Option.bind_some, Hit.stamp, if_neg]
      intro hp
      rw [activeCalls, hhits, active_append, active_opens (by simp [probedCalls, hp])] at ht
      exact Nat.succ_ne_zero _ ht

theorem length_keys_lt (hl : Roomy l) :
    (P.times (obj.state l)).entries.keys.length < maxEntries := by
  obtain ⟨threads, hlen, hmem⟩ := hl
  refine lt_of_le_of_lt ?_ hlen
  refine (P.times (obj.state l)).entries.keys_nodup.length_le_of_subset fun t ht => hmem t ?_
  by_contra hidle
  have hnone := P.lookup_of_idle (Nat.eq_zero_of_not_pos hidle)
  exact AList.lookup_eq_none.1 hnone (AList.mem_keys.2 ht)

/-- Other threads do not matter. -/
theorem lookup_append {mid : List Hit} (hmid : hitsOf t mid = []) :
    (P.times (obj.state (l ++ mid))).lookup t = (P.times (obj.state l)).lookup t := by
  induction mid using List.reverseRecOn with
  | nil => rw [List.append_nil]
  | append_singleton mid h ih =>
    rw [hitsOf_append, List.append_eq_nil_iff] at hmid
    have ht : h.tid ≠ t := by simpa [hitsOf] using hmid.2
    rw [← List.append_assoc, P.ownEntry.lookup_of_ne ht, ih hmid.1]

variable {pre mid : List Hit} {x y : Hit}

/-- What the exit of a call finds, if it finds anything. -/
theorem lookup_exit_none_or (pre : List Hit) (h : Invocation x mid y) :
    (P.times (obj.state (pre ++ x :: mid))).lookup y.tid = none ∨
      hitsOf x.tid mid = [] ∧
        (P.times (obj.state (pre ++ x :: mid))).lookup y.tid = some x.ktime := by
  refine or_iff_not_imp_left.2 fun hsome => ?_
  have hlast := (P.lookup_none_or (pre ++ x :: mid) y.tid).resolve_left hsome
  have hhits : hitsOf x.tid (pre ++ x :: mid) = hitsOf x.tid pre ++ x :: hitsOf x.tid mid := by
    simp [hitsOf]
  rw [hlast, h.same, hhits, List.getLast?_append_of_ne_nil _ (List.cons_ne_nil _ _)] at hsome ⊢
  rcases (hitsOf x.tid mid).eq_nil_or_concat' with hnil | ⟨hits, z, hz⟩
  · rw [hnil]
    exact ⟨rfl, if_pos (by simpa [probedCalls] using h.opens)⟩
  · -- the last hit is an exit, which has left nothing
    have hcloses : probedCalls.opens z = false := by
      refine h.nested.closes_last z ?_
      change z ∈ (hitsOf x.tid mid).getLast?
      rw [hz, List.getLast?_concat]
      rfl
    rw [hz, ← List.cons_append, List.getLast?_concat, Option.bind_some, Hit.stamp] at hsome
    exact (hsome (if_neg (by simpa [probedCalls] using hcloses))).elim

/-- With room it finds the time of its entry, if no probed call lies between them. -/
theorem lookup_exit_of_roomy (h : Invocation x mid y) (hpre : Roomy pre)
    (hmid : hitsOf x.tid mid = []) :
    (P.times (obj.state (pre ++ x :: mid))).lookup y.tid = some x.ktime := by
  have hx : x.probe = .uprobe := by simpa [probedCalls] using h.opens
  have hroom := P.length_keys_lt hpre
  rw [h.same, List.append_cons, P.lookup_append hmid, obj.state_concat, P.entry _ _ hx]
  exact BoundedMap.lookup_update_self_or.resolve_right fun hfull => hroom.ne hfull.2.2

/-- **The duration of a call**, however many threads there are: it is right or `0`. -/
theorem duration_crowd (post : List Hit) (h : Invocation x mid y) (hr : y.reserved = true) :
    ∃ r, obj.Records (pre ++ x :: mid) y post r ∧
      (P.duration r = 0 ∨ P.duration r = y.ktime - x.ktime) ∧
      (Roomy pre →
        (P.duration r = y.ktime - x.ktime ↔ hitsOf x.tid mid = [] ∨ y.ktime = x.ktime)) := by
  have hy : y.probe = .uretprobe := by
    cases hp : y.probe with
    | uprobe => simpa [probedCalls, hp] using h.closes
    | uretprobe => rfl
  obtain ⟨r, hsubmit, hduration⟩ := P.submit (obj.state (pre ++ x :: mid)) y hy hr
  refine ⟨r, ⟨hsubmit, obj.submitted_append_cons post hsubmit⟩, ?_⟩
  rw [hduration]
  rcases P.lookup_exit_none_or pre h with hnone | ⟨hmid, hsome⟩
  · rw [hnone]
    refine ⟨.inl rfl, fun hpre => ?_⟩
    have hmid : hitsOf x.tid mid ≠ [] := fun hmid => by
      rw [P.lookup_exit_of_roomy h hpre hmid] at hnone
      cases hnone
    simp only [Option.elim_none, hmid, false_or]
    exact eq_comm.trans sub_eq_zero
  · rw [hsome]
    exact ⟨.inr rfl, fun _ => iff_of_true rfl (.inl hmid)⟩

end Stamping

/-- **The durations of `watch` and `trace`, however many threads there are**: each object submits
for the exit of a call the time since its entry, or `0`; and it submits the time exactly if no
probed call lies between them on the thread, or no time does, when there are not too many threads in
calls at the entry. -/
theorem durations_crowd {pre mid post : List Hit} {x y : Hit} (h : Invocation x mid y)
    (hr : y.reserved = true) :
    (∃ ev, watchBpf.Records (pre ++ x :: mid) y post ev ∧
      (ev.durationNs = 0 ∨ ev.durationNs = y.ktime - x.ktime) ∧
      (Roomy pre →
        (ev.durationNs = y.ktime - x.ktime ↔ hitsOf x.tid mid = [] ∨ y.ktime = x.ktime))) ∧
    ∃ ev, traceBpf.Records (pre ++ x :: mid) y post ev ∧
      (ev.durationNs = 0 ∨ ev.durationNs = y.ktime - x.ktime) ∧
      (Roomy pre →
        (ev.durationNs = y.ktime - x.ktime ↔ hitsOf x.tid mid = [] ∨ y.ktime = x.ktime)) :=
  ⟨WatchBpf.stamping.duration_crowd post h hr, TraceBpf.stamping.duration_crowd post h hr⟩

theorem roomy_nil : Roomy [] := ⟨[], by decide, fun _ ht => (lt_irrefl 0 ht).elim⟩

theorem durations_crowd_leaf :
    ∃ ev ∈ traceBpf.submitted (Hit.leaf 0x1000 1 5), ev.durationNs = 4 := by
  obtain ⟨-, ev, ⟨-, after, hsub⟩, -, hiff⟩ := @durations_crowd [] [] []
    (.single .uprobe 0x1000 1) (.single .uretprobe 0x1000 5) (invocation_single .nil) rfl
  refine ⟨ev, ?_, (hiff roomy_nil).2 (.inl rfl)⟩
  exact hsub ▸ List.mem_append_right _ (List.mem_cons_self ..)

/-! ## The maps -/

section Idle

variable {l : List Hit} {t : Tid}

/-- A depth is below the number of active calls of its thread. -/
theorem TraceBpf.callDepth_lt (l : List Hit) (t : Tid) :
    ∀ d ∈ (traceBpf.state l).callDepth.lookup t, d.toNat < activeCalls t l := by
  induction l using List.reverseRecOn with
  | nil => exact fun d hd => by cases hd
  | append_singleton l h ih =>
    by_cases ht : h.tid = t
    · subst ht
      intro d hd
      rw [traceBpf.state_concat] at hd
      cases hp : h.probe with
      | uprobe =>
        rw [activeCalls_entry hp]
        rw [callDepth_entry _ hp] at hd
        obtain rfl := BoundedMap.eq_of_lookup_update_self hd
        cases hbefore : (traceBpf.state l).callDepth.lookup h.tid with
        | none => exact Nat.succ_pos _
        | some e =>
          have hlt := ih e hbefore
          have hle := Nat.mod_le (e.toNat + 1) (2 ^ 32)
          rw [Option.elim_some, BitVec.toNat_add]
          exact lt_of_le_of_lt hle (Nat.succ_lt_succ hlt)
      | uretprobe =>
        rw [activeCalls_exit hp]
        rw [callDepth_exit _ hp] at hd
        split_ifs at hd with hpos
        · obtain rfl := BoundedMap.eq_of_lookup_update_self hd
          cases hbefore : (traceBpf.state l).callDepth.lookup h.tid with
          | none =>
            rw [hbefore] at hpos
            exact absurd hpos (by decide)
          | some e =>
            rw [hbefore] at hpos
            have hlt := ih e hbefore
            have hone : (1 : BitVec 32) ≤ e := BitVec.le_def.2 (BitVec.lt_def.1 hpos)
            rw [Option.getD_some, BitVec.toNat_sub_of_le hone]
            exact Nat.sub_lt_sub_right (BitVec.le_def.1 hone) hlt
        · rw [BoundedMap.lookup_delete_self] at hd
          cases hd
    · rw [activeCalls_concat_of_ne ht, ownEntry_callDepth.lookup_of_ne ht]
      exact ih

theorem TraceBpf.callDepth_of_idle (ht : activeCalls t l = 0) :
    (traceBpf.state l).callDepth.lookup t = none := by
  refine Option.eq_none_iff_forall_not_mem.2 fun d hd => ?_
  have hlt := callDepth_lt l t d hd
  omega

/-- Without active calls the maps are as at the start. -/
theorem WatchBpf.state_of_idle (h : ∀ t, activeCalls t l = 0) : watchBpf.state l = watchBpf.init :=
  BoundedMap.eq_empty fun t => WatchBpf.stamping.lookup_of_idle (h t)

theorem TraceBpf.state_of_idle (h : ∀ t, activeCalls t l = 0) :
    traceBpf.state l = traceBpf.init := by
  have hdepth : (traceBpf.state l).callDepth = .empty :=
    BoundedMap.eq_empty fun t => callDepth_of_idle (h t)
  have htimes : (traceBpf.state l).entryTimes = .empty :=
    BoundedMap.eq_empty fun t => TraceBpf.stamping.lookup_of_idle (h t)
  exact congrArg₂ Maps.mk hdepth htimes

theorem BpfObject.submitted_append {σ ε : Type} {obj : BpfObject σ ε}
    (h : obj.state l = obj.init) (l' : List Hit) :
    obj.submitted (l ++ l') = obj.submitted l ++ obj.submitted l' := by
  rw [submitted, submittedFrom_append]
  change _ ++ obj.submittedFrom (obj.state l) l' = _
  rw [h, submitted, submitted]

end Idle

/-- **Nothing is left of what is over**: when no call is active, the records of what comes next are
those that it has on its own, however many threads there have been and whichever records have been
lost. -/
theorem submitted_idle {l : List Hit} (h : ∀ t, activeCalls t l = 0) (l' : List Hit) :
    watchBpf.submitted (l ++ l') = watchBpf.submitted l ++ watchBpf.submitted l' ∧
    traceBpf.submitted (l ++ l') = traceBpf.submitted l ++ traceBpf.submitted l' :=
  ⟨BpfObject.submitted_append (WatchBpf.state_of_idle h) l',
    BpfObject.submitted_append (TraceBpf.state_of_idle h) l'⟩

theorem submitted_idle_twoThreads :
    traceBpf.submitted (Hit.twoThreads ++ Hit.leaf 0x2000 7 9) =
      traceBpf.submitted Hit.twoThreads ++ traceBpf.submitted (Hit.leaf 0x2000 7 9) :=
  (submitted_idle (fun t => (wellNested_twoThreads.nested t).active_eq 0) _).2

end Uatu
