import Uatu.Engine.Attribution

/-!
# Events when records are lost

A record is lost when the ring buffer has no room for it. The callback can then find in the cache
what another call of the function has left there. What an event shows is nothing, or belongs to the
call whose exit it reports, exactly if the last entry that is kept before the exit cannot be
mistaken for the call's own (`params_own_iff`).
-/

namespace Uatu

open Nesting

namespace Watch

/-! ## The last entry -/

/-- No entry is kept among these hits. -/
def NoEntry (l : List Observation) : Prop :=
  ∀ o ∈ l, o.1.reserved = true → o.1.probe = .uretprobe

/-- `e` is the last entry that is kept, and `since` comes after it. -/
structure LastEntry (l : List Observation) (e : Observation) (since : List Observation) :
    Prop where
  split : ∃ before, l = before ++ e :: since
  kept : e.1.reserved = true
  entry : e.1.probe = .uprobe
  last : NoEntry since

variable {w : Watch} {l since : List Observation} {e : Observation}

theorem noEntry_or_lastEntry (l : List Observation) :
    NoEntry l ∨ ∃ e since, LastEntry l e since := by
  induction l using List.reverseRecOn with
  | nil => exact .inl fun o ho => by simp at ho
  | append_singleton l o ih =>
    by_cases ho : o.1.reserved = true ∧ o.1.probe = .uprobe
    · exact .inr ⟨o, [], ⟨l, rfl⟩, ho.1, ho.2, fun z hz => by simp at hz⟩
    · have hexit : o.1.reserved = true → o.1.probe = .uretprobe := fun hr => by
        cases hp : o.1.probe with
        | uprobe => exact (ho ⟨hr, hp⟩).elim
        | uretprobe => rfl
      obtain hno | ⟨e, since, h⟩ := ih
      · refine .inl fun z hz => ?_
        obtain hz | hz := List.mem_append.1 hz
        · exact hno z hz
        · exact List.mem_singleton.1 hz ▸ hexit
      · obtain ⟨before, rfl⟩ := h.split
        refine .inr ⟨e, since ++ [o], ⟨before, by simp⟩, h.kept, h.entry, fun z hz => ?_⟩
        obtain hz | hz := List.mem_append.1 hz
        · exact h.last z hz
        · exact List.mem_singleton.1 hz ▸ hexit

/-- Exits cache nothing. -/
theorem foldl_none_of_noEntry (h : NoEntry l) (hw : w.Watched l) :
    l.foldl w.cacheStep none = none := by
  induction l with
  | nil => rfl
  | cons o l ih =>
    have ih := ih (fun z hz => h z (List.mem_cons_of_mem _ hz))
      fun z hz => hw z (List.mem_cons_of_mem _ hz)
    have hstep : w.cacheStep none o = none := by
      cases hr : o.1.reserved with
      | false => exact cacheStep_lost hr
      | true =>
        obtain ⟨idx, fi, ht⟩ := hw.target (List.mem_cons_self ..)
        rw [cacheStep_exit hr (h o (List.mem_cons_self ..) hr) ht]
        rfl
    rw [List.foldl_cons, hstep, ih]

/-- Exits leave an entry in the cache up to the first that is kept of its target. -/
theorem foldl_some_of_noEntry (h : NoEntry l) (hw : w.Watched l) {ed : EntryData} {a : Addr}
    {fi : FuncInfo} (ha : w.target a = some (ed.idx, fi)) :
    l.foldl w.cacheStep (some ed) =
      if ∃ z ∈ l, z.1.reserved = true ∧ z.1.funcIp = a then none else some ed := by
  induction l with
  | nil => simp
  | cons o l ih =>
    have h' : NoEntry l := fun z hz => h z (List.mem_cons_of_mem _ hz)
    have hw' : w.Watched l := fun z hz => hw z (List.mem_cons_of_mem _ hz)
    have ih := ih h' hw'
    rw [List.foldl_cons]
    by_cases ho : o.1.reserved = true ∧ o.1.funcIp = a
    · have ht : w.target o.1.funcIp = some (ed.idx, fi) := ho.2 ▸ ha
      rw [cacheStep_exit ho.1 (h o (List.mem_cons_self ..) ho.1) ht,
        if_pos ⟨o, List.mem_cons_self .., ho⟩]
      simpa [Option.filter] using foldl_none_of_noEntry h' hw'
    · have hstep : w.cacheStep (some ed) o = some ed := by
        cases hr : o.1.reserved with
        | false => exact cacheStep_lost hr
        | true =>
          obtain ⟨idx, fi', ht⟩ := hw.target (List.mem_cons_self ..)
          have hne : ed.idx ≠ idx := by
            rintro rfl
            exact ho ⟨hr, target_inj ht ha⟩
          rw [cacheStep_exit hr (h o (List.mem_cons_self ..) hr) ht]
          simp [Option.filter, hne]
      rw [hstep, ih]
      refine if_congr ?_ rfl rfl
      simp only [List.mem_cons, exists_eq_or_imp, ho, false_or]

/-- What is cached after the last entry that is kept. -/
theorem LastEntry.cached (h : LastEntry l e since) (hw : w.Watched l) {idx : ℕ} {fi : FuncInfo}
    (ht : w.target e.1.funcIp = some (idx, fi)) :
    w.cached l = if ∃ z ∈ since, z.1.reserved = true ∧ z.1.funcIp = e.1.funcIp then none
      else some ⟨e.1.parm, idx, resolveStrs e.2 e.1.parm fi⟩ := by
  obtain ⟨before, rfl⟩ := h.split
  rw [Watch.cached, List.foldl_append, List.foldl_cons, cacheStep_entry h.kept h.entry ht]
  exact foldl_some_of_noEntry h.last (fun z hz => hw z (by simp [hz])) ht

/-- The last entry that is kept cannot be mistaken for that of the call `x`: it is of another
target, or a kept exit has taken it from the cache, or it shows the same. -/
def Distinct (fi : FuncInfo) (a : Addr) (x e : Observation) (since : List Observation) : Prop :=
  e.1.funcIp ≠ a ∨ (∃ z ∈ since, z.1.reserved = true ∧ z.1.funcIp = e.1.funcIp) ∨
    callParams fi e = callParams fi x

/-- What an exit shows is nothing, or the last entry that is kept. -/
theorem LastEntry.exitParams (h : LastEntry l e since) (hw : w.Watched l) {a : Addr} {idx : ℕ}
    {fi : FuncInfo} (ha : w.target a = some (idx, fi)) :
    exitParams idx fi (w.cached l) =
      if e.1.funcIp = a ∧ ¬ ∃ z ∈ since, z.1.reserved = true ∧ z.1.funcIp = e.1.funcIp then
        callParams fi e
      else [] := by
  obtain ⟨before, hl⟩ := h.split
  obtain ⟨idx', fi', ht⟩ := hw.target (show e ∈ l by rw [hl]; simp)
  rw [h.cached hw ht]
  by_cases hex : ∃ z ∈ since, z.1.reserved = true ∧ z.1.funcIp = e.1.funcIp
  · rw [if_pos hex, if_neg fun hne => hne.2 hex]
    rfl
  · rw [if_neg hex]
    by_cases he : e.1.funcIp = a
    · subst he
      rw [ht] at ha
      cases ha
      rw [if_pos ⟨rfl, hex⟩]
      simp [Watch.exitParams, callParams]
    · have hidx : idx' ≠ idx := by
        rintro rfl
        exact he (target_inj ht ha)
      rw [if_neg fun hne => he hne.1]
      simp [Watch.exitParams, hidx]

/-- What an exit shows is nothing, or the parameters of this call, exactly if the last entry that is
kept before it is distinct. -/
theorem exitParams_own_iff (hw : w.Watched l) {a : Addr} {idx : ℕ} {fi : FuncInfo}
    (ha : w.target a = some (idx, fi)) {x : Observation} :
    (exitParams idx fi (w.cached l) = [] ∨ exitParams idx fi (w.cached l) = callParams fi x) ↔
      ∀ e since, LastEntry l e since → Distinct fi a x e since := by
  constructor
  · intro hown e since h
    rw [h.exitParams hw ha] at hown
    by_cases he : e.1.funcIp = a
    · refine .inr (or_iff_not_imp_left.2 fun hex => ?_)
      rw [if_pos ⟨he, hex⟩] at hown
      obtain hnil | hown := hown
      · rw [hnil, eq_comm, callParams_eq_nil]
        exact callParams_eq_nil.1 hnil
      · exact hown
    · exact .inl he
  · intro hlast
    obtain hno | ⟨e, since, h⟩ := noEntry_or_lastEntry l
    · refine .inl ?_
      rw [Watch.cached, foldl_none_of_noEntry hno hw]
      rfl
    · rw [h.exitParams hw ha]
      split_ifs with hshown
      · obtain hne | hex | hsame := hlast e since h
        · exact (hne hshown.1).elim
        · exact (hshown.2 hex).elim
        · exact .inr hsame
      · exact .inl rfl

end Watch

open Watch in
/-- **The parameters of an event**, whatever records are lost: they are none, or those of the call
whose exit it reports, exactly if the last entry that is kept on the thread cannot be mistaken for
the call's own. -/
theorem params_own_iff {w : Watch} {deadline : ℤ} {polls : List Poll}
    {pre mid post : List Observation} {x y : Observation} (h : ObservedCall x mid y)
    (hkept : y.1.reserved = true) (hw : w.Watched (pre ++ x :: mid ++ y :: post))
    (hrecords : polls.flatMap Poll.records = deliveries (pre ++ x :: mid ++ y :: post))
    (hpolls : ∀ p ∈ polls, p.stopFlag = false ∧ p.now < deadline)
    (hmax : ((w.handle (pre ++ x :: mid)).events.length : ℤ) < w.maxEvents) :
    ∃ idx fi ev after, w.target y.1.funcIp = some (idx, fi) ∧
      (w.loop deadline polls start).events = (w.handle (pre ++ x :: mid)).events ++ ev :: after ∧
      ev.funcName = fi.name ∧ ev.timestampNs = y.1.ktime ∧
      ((ev.params = [] ∨ ev.params = callParams fi x) ↔
        ∀ e since, LastEntry (observationsOf x.1.tid (pre ++ x :: mid)) e since →
          Distinct fi y.1.funcIp x e since) := by
  obtain ⟨idx, fi, ht⟩ := hw.target (show y ∈ pre ++ x :: mid ++ y :: post by simp)
  obtain ⟨r, after, hr, hevents⟩ :=
    events_loop_exit hkept (probe_closes h.closes) ht hrecords hpolls hmax
  have hthread : w.Watched (observationsOf x.1.tid (pre ++ x :: mid)) := fun o ho =>
    hw o (List.mem_append_left _ (List.mem_filter.1 ho).1)
  rw [h.same] at hevents
  exact ⟨idx, fi, _, after, ht, hevents, rfl, hr.timestamp,
    exitParams_own_iff hthread ht⟩

open Watch in
/-- A call that calls the other function, when the entry record of that is lost. -/
theorem params_own_iff_outer :
    let l := [outer.1, observe .uprobe 0x2000 8 false, observe .uretprobe 0x2000 8 true, outer.2]
    ∃ ev ∈ (pair.loop 1 (onePoll l) start).events, ev.funcName = "f".toList ∧
      (ev.params = [] ∨ ev.params = callParams (intFunc "f".toList 0x1000) outer.1) := by
  have hnested : Balanced observedCalls
      (observe .uprobe 0x2000 8 false :: ([] ++ observe .uretprobe 0x2000 8 true :: [])) :=
    .call rfl rfl rfl .nil .nil
  have hcall : ObservedCall outer.1
      [observe .uprobe 0x2000 8 false, observe .uretprobe 0x2000 8 true] outer.2 :=
    ⟨rfl, rfl, rfl, rfl, hnested⟩
  obtain ⟨idx, fi, ev, after, ht, hevents, hname, -, hiff⟩ :=
    @params_own_iff pair 1
      (onePoll [outer.1, observe .uprobe 0x2000 8 false, observe .uretprobe 0x2000 8 true, outer.2])
      [] _ [] _ _ hcall rfl (watched_pair (by decide)) (by simp [onePoll]) (by decide) (by decide)
  cases ht
  refine ⟨ev, ?_, hname, hiff.2 fun e since hlast => .inr (.inr ?_)⟩
  · exact hevents ▸ List.mem_append_right _ (List.mem_cons_self ..)
  · obtain ⟨before, hl⟩ := hlast.split
    have hmem := List.mem_of_mem_filter (hl ▸ List.mem_append_right _ (List.mem_cons_self ..))
    -- the other two hits are not of a kept entry
    obtain rfl : e = outer.1 := by
      have hkept := hlast.kept
      have hentry := hlast.entry
      simp only [List.nil_append, List.mem_cons, List.not_mem_nil, or_false] at hmem
      obtain rfl | rfl | rfl := hmem
      · rfl
      · cases hkept
      · cases hentry
    rfl

open Watch in
/-- The parameters of the inner call are shown for the outer one when the exit of the inner one is
lost. -/
theorem params_of_inner :
    let l := outer.1 :: inner 0x1000 false ++ [outer.2]
    ObservedCall outer.1 (inner 0x1000 false) outer.2 ∧
    ∃ ev ∈ (pair.loop 1 (onePoll l) start).events, ev.funcName = "f".toList ∧
      ev.params ≠ [] ∧ ev.params ≠ callParams (intFunc "f".toList 0x1000) outer.1 :=
  ⟨call_inner, by decide⟩

end Uatu
