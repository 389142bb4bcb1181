import Uatu.Engine.FallbackTargets
import Uatu.Engine.Unescape

/-!
# What an event says

Whatever the process does and however the system answers, an event that `watch_checked` returns is
of one of its targets (`watch_events`): it has the name of the function, a word that is shown as a
value of the type that the function returns, and no parameters or those of one call, all of them
shown from the registers and the memory of one entry.
-/

namespace Uatu

open Throwing

variable {R : Type}

/-- The event is of a call of the function, or of what looks like one. -/
structure WatchEvent.Of (fi : FuncInfo) (ev : WatchEvent) : Prop where
  funcName : ev.funcName = fi.name
  params : ev.params = [] ∨ ∃ mem args,
    ev.params = formatParams fi.paramTypes args fi.hasThis (resolveStrs mem args fi)
  retValue : ∃ v, ev.retValue = formatIntVal v fi.returnType
  isException : ev.isException = false

/-! ## Texts of parameters -/

/-- A string that is resolved has escapes in it. -/
def Escaped (s : Text) : Prop := ∃ bytes : List (BitVec 8), s = bytes.flatMap escape

theorem escaped_of_mem_resolveStrsFrom {mem : ProcMem} {args : Args} {types : List Text}
    {intR : ℕ} : ∀ s ∈ resolveStrsFrom mem args types intR, Escaped s := by
  induction types generalizing intR with
  | nil =>
    intro s hs
    cases hs
  | cons t types ih =>
    have hread : ∀ addr, Escaped (readProcMemStr mem addr 256) :=
      fun addr => ⟨_, readProcMemStr_eq mem addr 256⟩
    rw [resolveStrsFrom]
    split_ifs <;> rw [List.forall_mem_cons]
    · exact ⟨⟨[], rfl⟩, ih⟩
    · exact ⟨hread _, ih⟩
    · exact ⟨⟨[], rfl⟩, ih⟩
    · exact ⟨⟨[], rfl⟩, ih⟩

/-- A property of the four texts that a parameter can have. -/
structure ParamTexts (P : Text → Prop) : Prop where
  xmm : ∀ k, P (xmmText k)
  value : ∀ v type, P (formatParamVal v type)
  string : ∀ bytes, P (stringText bytes)
  unknown : P "?".toList

/-- It is one of all parameters. -/
theorem ParamTexts.formatParamsFrom {P : Text → Prop} (hP : ParamTexts P) {args : Args}
    {types strVals : List Text} {intReg fpReg : ℕ} (h : ∀ s ∈ strVals, Escaped s) :
    ∀ s ∈ formatParamsFrom args types strVals intReg fpReg, P s := by
  induction types generalizing strVals intReg fpReg with
  | nil =>
    intro s hs
    cases hs
  | cons t types ih =>
    have htail : ∀ s ∈ strVals.tail, Escaped s := fun s hs => h s (List.mem_of_mem_tail hs)
    rw [Uatu.formatParamsFrom]
    split_ifs with hfp hreg <;> rw [List.forall_mem_cons]
    · exact ⟨hP.xmm fpReg, ih htail⟩
    · refine ⟨?_, ih htail⟩
      by_cases hstr : strVals.head?.getD [] = []
      · simp only [hstr, ne_eq, not_true_eq_false, if_false]
        exact hP.value _ _
      · simp only [ne_eq, hstr, not_false_eq_true, if_true]
        cases strVals with
        | nil => exact absurd rfl hstr
        | cons str strVals =>
          obtain ⟨bytes, rfl⟩ := h str (List.mem_cons_self ..)
          exact hP.string bytes
    · exact ⟨hP.unknown, ih htail⟩

theorem WatchEvent.Of.forall_params {P : Text → Prop} (hP : ParamTexts P) {fi : FuncInfo}
    {ev : WatchEvent} (h : ev.Of fi) : ∀ s ∈ ev.params, P s := by
  obtain hnil | ⟨mem, args, hparams⟩ := h.params
  · rw [hnil]
    intro s hs
    cases hs
  · rw [hparams]
    exact hP.formatParamsFrom escaped_of_mem_resolveStrsFrom

/-! ## The eBPF path -/

namespace Watch

variable {w : Watch} {s : WatchState} {raw : RawEvent} {idx : ℕ} {fi : FuncInfo}

/-- What is cached is of an entry of a target, and an event is of a target. -/
structure Recorded (w : Watch) (s : WatchState) : Prop where
  cached : ∀ t ed, s.entryCache.lookup t = some ed →
    ∃ fi mem, w.targets[ed.idx]? = some fi ∧ ed.strVals = resolveStrs mem ed.args fi
  events : ∀ ev ∈ s.events, ∃ fi ∈ w.targets, ev.Of fi

theorem recorded_start : w.Recorded start where
  cached t ed h := by simp [start] at h
  events ev h := by cases h

theorem getElem?_of_target {a : Addr} (h : w.target a = some (idx, fi)) :
    w.targets[idx]? = some fi := by
  simp only [target, bind, Option.bind_eq_some_iff] at h
  obtain ⟨j, -, f, hf, heq⟩ := h
  obtain ⟨rfl, rfl⟩ : j = idx ∧ f = fi := by simpa using heq
  exact hf

/-- The event of an exit. The parameters are of the entry that is cached, if that is of the same
target. -/
theorem of_exitEvent {cached : Option EntryData} (hfi : w.targets[idx]? = some fi)
    (hcached : ∀ ed ∈ cached,
      ∃ fi mem, w.targets[ed.idx]? = some fi ∧ ed.strVals = resolveStrs mem ed.args fi) :
    (exitEvent raw idx fi cached).Of fi where
  funcName := rfl
  retValue := ⟨_, rfl⟩
  isException := rfl
  params := by
    cases cached with
    | none => exact .inl rfl
    | some ed =>
      change (if ed.idx = idx then _ else []) = [] ∨ _
      obtain ⟨fi', mem, hfi', hstrs⟩ := hcached ed rfl
      by_cases hidx : ed.idx = idx
      · rw [hidx, hfi, Option.some.injEq] at hfi'
        subst hfi'
        exact .inr ⟨mem, ed.args, (if_pos hidx).trans (by rw [hstrs])⟩
      · exact .inl (if_neg hidx)

/-- What is cached after an exit was cached before. -/
theorem lookup_of_lookup_callback {d : Delivery} {t : Tid} {ed : EntryData}
    (hexit : ¬ d.1.isExit = false) (h : (w.callback s d).entryCache.lookup t = some ed) :
    s.entryCache.lookup t = some ed := by
  by_cases ht : t = d.1.tid
  · subst ht
    unfold callback at h
    rw [if_neg hexit] at h
    split_ifs at h
    · exact h
    · cases htarget : w.target d.1.funcAddr with
      | none =>
        rw [htarget] at h
        exact h
      | some found =>
        rw [htarget] at h
        cases hcached : s.entryCache.lookup d.1.tid with
        | none =>
          simp only [hcached] at h
          cases h
        | some cached =>
          simp only [hcached] at h
          split_ifs at h
          · rw [AList.lookup_erase] at h
            cases h
          · rwa [hcached] at h
  · rwa [lookup_callback_of_ne ht] at h

/-- One record: an entry is cached with what is resolved for it, and an exit makes an event. -/
theorem Recorded.callback (h : w.Recorded s) (d : Delivery) : w.Recorded (w.callback s d) := by
  by_cases hexit : d.1.isExit = false
  · unfold Watch.callback
    rw [if_pos hexit]
    cases htarget : w.target d.1.funcAddr with
    | none => exact h
    | some found =>
      refine ⟨fun t ed hlookup => ?_, h.events⟩
      by_cases ht : t = d.1.tid
      · subst ht
        rw [AList.lookup_insert] at hlookup
        cases hlookup
        exact ⟨found.2, d.2, getElem?_of_target htarget, rfl⟩
      · rw [AList.lookup_insert_ne ht] at hlookup
        exact h.cached t ed hlookup
  · refine ⟨fun t ed hlookup => h.cached t ed (lookup_of_lookup_callback hexit hlookup), ?_⟩
    unfold Watch.callback
    rw [if_neg hexit]
    split_ifs
    · exact h.events
    · cases htarget : w.target d.1.funcAddr with
      | none => exact h.events
      | some found =>
        have hfound := getElem?_of_target htarget
        intro ev hev
        rcases List.mem_append.1 hev with hev | hev
        · exact h.events ev hev
        · rw [List.mem_singleton.1 hev]
          exact ⟨found.2, List.mem_of_getElem? hfound, of_exitEvent hfound (h.cached d.1.tid)⟩

theorem Recorded.foldl (h : w.Recorded s) (records : List Delivery) :
    w.Recorded (records.foldl w.callback s) := by
  induction records generalizing s with
  | nil => exact h
  | cons d records ih => exact ih (h.callback d)

theorem Recorded.loop {deadline : ℤ} {polls : List Poll} (h : w.Recorded s) :
    w.Recorded (w.loop deadline polls s) := by
  induction polls generalizing s with
  | nil => exact h
  | cons p polls ih =>
    rw [Watch.loop]
    split_ifs
    · exact h
    · exact h
    · exact ih (h.foldl p.records)
    · exact h

end Watch

/-! ## Both paths -/

/-- An event of the fallback has no parameters. -/
theorem WatchChecked.of_ptraceEvent (fi : FuncInfo) (node : TraceNode) :
    (ptraceEvent fi node).Of fi where
  funcName := rfl
  params := .inl rfl
  retValue := ⟨_, rfl⟩
  isException := rfl

open WatchChecked in
/-- **What `watch_checked` returns**, on either path and for whatever the process does: every event
is of a target. -/
theorem watch_events {A : Arch R} {impl : Impl} {regex : RegexEngine} {funcName : Text}
    {maxEvents timeoutMs : ℤ} {env : WatchScript R} {w u : World R} {evs : List WatchEvent}
    (h : watchChecked A impl regex funcName maxEvents timeoutMs env w = .ok (.ok evs) u) :
    ∃ targets, impl.targets regex funcName = .ok targets ∧
      ∀ ev ∈ evs, ∃ fi ∈ targets, ev.Of fi := by
  obtain ⟨targets, htargets, h⟩ := watchChecked_eq_ok.1 h
  refine ⟨targets, htargets, ?_⟩
  obtain ⟨-, -, hebpf⟩ | ⟨-, t, -, hptrace⟩ := watchTargets_eq_ok h
  · rw [events_ebpfWatch.ok hebpf]
    exact Watch.recorded_start.loop.events
  · obtain ⟨rfl, hmap⟩ := ptraceWatch_eq_ok hptrace
    intro ev hev
    obtain ⟨x, hx, hev⟩ := List.mem_flatMap.1 hev
    obtain ⟨node, -, rfl⟩ := List.mem_map.1 hev
    refine ⟨x.target, ?_, of_ptraceEvent _ node⟩
    rw [← hmap]
    exact List.mem_map_of_mem hx

end Uatu
