import Uatu.Engine.FrameChain
import Uatu.Engine.Samples
import Uatu.Engine.Symbols
import Uatu.Foundations.Timeline

/-!
# The samples of a run in order

Whatever the tracee does, the samples that a command returns are made by iterations of its loop in
the order in which these come (`Command.history_of_run`). A sample of `trace()` is of two of them,
the second of which is over before the next sample begins, so samples do not overlap in time
(`trace_samples`). A sample of `stack()` is of one (`stack_samples`).
-/

namespace Uatu

open Throwing Timeline

variable {R V ν : Type}

namespace Command

variable {C : Command R V ν} {impl : Impl} {funcName : Text} {count timeoutMs deadline : ℤ}
  {c : Target} {env : Script R} {s t : Session R V ν}

/-- The constants of the loop are those of the command. -/
structure Serves (impl : Impl) (name : Text) (n : ℤ) (c : Target) : Prop where
  funcName : c.funcName = name
  finder : impl.finder = .ok c.finder
  found : ∃ fi ∈ c.finder.cache, fi.name = name
  count : c.count = n
  nonneg : 0 ≤ n

theorem post_prepare_serves : Post (C.prepare impl funcName count timeoutMs env) s
    (fun p _ => Serves impl funcName count p.1) fun _ _ => True := by
  unfold prepare
  split
  · trivial
  next finder hfinder =>
    split
    · trivial
    next info hfind =>
      rw [SymbolFinder.find_eq] at hfind
      have hfound : ∃ fi ∈ finder.cache, fi.name = funcName :=
        ⟨info, List.mem_of_find?_eq_some hfind, by simpa using List.find?_some hfind⟩
      rw [post_ite]
      refine ⟨fun _ => trivial, fun _ => ?_⟩
      split
      · trivial
      · simp only [post_bind, post_modify]
        refine post_waitpidTimeout ?_ fun b hb _ _ => ?_
        · simp [post_ptraceDetach]
        · simp only [post_bind, post_modify, post_ite, post_throw, post_pure]
          exact ⟨fun _ => trivial, fun hcount => ⟨rfl, hfinder, hfound, rfl, not_lt.1 hcount⟩⟩

/-- What a loop has done: a property of the rounds it has gone through, its local variables and the
samples, which goes on to hold when a round does nothing, and when a stop is handled. -/
structure History (C : Command R V ν) (c : Target)
    (J : List (Round R) → V → List ν → Prop) : Prop where
  skip : ∀ rounds r v l, J rounds v l → J (rounds ++ [r]) v l
  hit : ∀ rounds r s, (s.results.length : ℤ) < c.count → J rounds s.vars s.results →
    Post (C.hit c r) s (fun _ t => J (rounds ++ [r]) t.vars t.results) fun _ _ => True

variable {J : List (Round R) → V → List ν → Prop} {rounds : List (Round R)} {r : Round R}

theorem History.post_round (h : History C c J) (hs : J rounds s.vars s.results) :
    Post (C.round c deadline r) s (fun _ t => J (rounds ++ [r]) t.vars t.results)
      fun _ _ => True := by
  have hskip := h.skip rounds r _ _ hs
  refine Command.post_round (fun _ => hskip) hskip hskip fun hlt => ?_
  have hresume : J (rounds ++ [r]) (s.resume r).vars (s.resume r).results := by
    simpa using hskip
  refine post_await hresume hresume (fun b _ _ _ _ => ?_) (fun b _ _ _ _ _ _ => ?_)
    fun b _ _ _ _ _ _ => ?_
  · simpa using hskip
  · simpa using hskip
  · exact h.hit rounds r _ (by simpa using hlt) (by simpa using hs)

/-- The loop goes through rounds from the first one on. -/
theorem History.post_loop (h : History C c J) {post : List (Round R)}
    (hs : J rounds s.vars s.results) : Post (C.loop c deadline post) s
      (fun _ t => ∃ pre, pre <+: post ∧ J (rounds ++ pre) t.vars t.results) fun _ _ => True := by
  have hstop : ∀ (post : List (Round R)) (t : Session R V ν) (rounds : List (Round R)),
      J rounds t.vars t.results → ∃ pre, pre <+: post ∧ J (rounds ++ pre) t.vars t.results :=
    fun post t rounds ht => ⟨[], List.nil_prefix, by rwa [List.append_nil]⟩
  induction post generalizing rounds s with
  | nil =>
    simp only [Command.loop, post_bind, post_get, post_ite, post_pure]
    exact ⟨fun _ => hstop _ _ _ hs, fun _ => hstop _ _ _ hs⟩
  | cons r post ih =>
    have hcons : ∀ {t : Session R V ν},
        (∃ pre, pre <+: post ∧ J (rounds ++ [r] ++ pre) t.vars t.results) →
        ∃ pre, pre <+: r :: post ∧ J (rounds ++ pre) t.vars t.results := by
      rintro t ⟨pre, hpre, ht⟩
      exact ⟨r :: pre, List.cons_prefix_cons.2 ⟨rfl, hpre⟩, by simpa using ht⟩
    rw [Command.loop, post_bind]
    refine (h.post_round hs).mono (fun e t ht => ?_) fun _ _ h => h
    cases e with
    | some e => exact hcons (hstop _ _ _ ht)
    | none => exact (ih ht).mono (fun _ _ hu => hcons hu) fun _ _ h => h

/-- **What a command returns has a history**, if its loops do and the cleanup leaves the samples
alone. -/
theorem history_of_run {J : Target → List (Round R) → V → List ν → Prop}
    (hhistory : ∀ c, History C c (J c)) (hstart : ∀ c w, J c [] (C.start c w) [])
    (hcleanup : ∀ c s, Post (C.cleanup c) s (fun _ t => t.results = s.results) fun _ _ => True)
    {l : List ν} (h : C.run impl funcName count timeoutMs env s = .ok l t) :
    ∃ c v rounds, Serves impl funcName count c ∧ rounds <+: env.rounds ∧ J c rounds v l := by
  obtain ⟨c, deadline, s₁, s₂, e, s₃, hprep, harm, hloop, hfinish⟩ := run_eq_ok h
  have harmed := armed_of_arm harm
  have hresults : s₂.results = [] := harmed.results.trans (prepared_of_prepare hprep).results
  have hinit : J c [] s₂.vars s₂.results := by
    rw [harmed.vars, hresults]
    exact hstart c _
  obtain ⟨rounds, hrounds, hJ⟩ := ((hhistory c).post_loop hinit).ok hloop
  have hlist : Post (C.finish c env) s₃ (fun l _ => l = s₃.results) fun _ _ => True := by
    simp only [finish, post_bind, post_modify, post_get, post_pure]
    exact hcleanup c _
  rw [hlist.ok hfinish]
  exact ⟨c, _, rounds, post_prepare_serves.ok hprep, hrounds, hJ⟩

end Command

/-! ## `trace()` -/

namespace Trace

/-- A node is of two rounds: its duration is the time between the readings of the clock there. -/
structure NodeOf (name : Text) (p : Round R × Round R) (node : TraceNode) : Prop where
  funcName : node.funcName = name
  durationNs : node.durationNs = p.2.nowNs - p.1.nowNs
  children : node.children = []

/-- What the loop of `trace()` has done: its samples are of pairs of rounds, and the sample that is
not complete is of a round after these. -/
structure Paired (c : Target) (rounds : List (Round R)) (v : TraceVars) (l : List TraceNode)
    (pairs : List (Round R × Round R)) (pending : Option (Round R)) : Prop where
  picks : Picks rounds pairs pending
  nodes : List.Forall₂ (NodeOf c.funcName) pairs l
  waiting : v.waitingForExit = pending.isSome
  entryTs : ∀ e ∈ pending, v.entryTs = e.nowNs

variable {A : Arch R} {c : Target} {rounds : List (Round R)} {r : Round R}

theorem history_paired : (traceCommand A).History c fun rounds v l =>
    ∃ pairs pending, Paired c rounds v l pairs pending where
  skip := by
    rintro rounds r v l ⟨pairs, pending, h⟩
    exact ⟨pairs, pending, h.picks.skip r, h.nodes, h.waiting, h.entryTs⟩
  hit := by
    rintro rounds r s - ⟨pairs, pending, h⟩
    change Post (hit A c r) s _ _
    rw [post_hit]
    refine ⟨fun _ => ⟨fun hentry => ?_, fun _ => ⟨fun hret => ?_, fun _ => ?_⟩⟩, fun _ => trivial⟩
    · cases pending with
      | some e => exact absurd (h.waiting.symm.trans hentry.1) (by simp)
      | none =>
        rw [post_entryHit rfl]
        simp only [implies_true, and_true]
        intro _ _ _ _ _
        refine ⟨pairs, some r, h.picks.begins r, h.nodes, rfl, ?_⟩
        rintro e ⟨⟩
        rfl
    · cases pending with
      | none => exact absurd (h.waiting.symm.trans hret.1) (by simp)
      | some e =>
        have hnode : NodeOf c.funcName (e, r) (node A c s.vars s.tracee.regs r.nowNs) :=
          ⟨rfl, by rw [← h.entryTs e rfl]; rfl, rfl⟩
        rw [post_returnHit rfl]
        simp only [implies_true, and_true]
        intro _ _ _ _
        refine ⟨pairs ++ [(e, r)], none, h.picks.ended r, ?_, rfl, fun e he => by cases he⟩
        exact List.rel_append h.nodes (.cons hnode .nil)
    · exact ⟨pairs, pending, h.picks.skip r, h.nodes, h.waiting, h.entryTs⟩

theorem post_cleanup_results {s : Session R TraceVars TraceNode} :
    Post (cleanup c) s (fun _ t => t.results = s.results) fun _ _ => True := by
  suffices h : Post (cleanup c) (s.put s.issued s.tracee.mem s.tracee.regs s.vars s.results)
      (fun _ t => t.results = s.results) fun _ _ => True from h
  simp [cleanup, post_restoreWord, post_ptraceDetach]

theorem exists_paired {impl : Impl} {funcName : Text} {count timeoutMs : ℤ} {env : Script R}
    {nodes : List TraceNode} {s t : Session R TraceVars TraceNode}
    (h : trace A impl funcName count timeoutMs env s = .ok nodes t) :
    ∃ c v rounds, Command.Serves impl funcName count c ∧ rounds <+: env.rounds ∧
      ∃ pairs pending, Paired c rounds v nodes pairs pending :=
  Command.history_of_run (C := traceCommand A) (fun _ => history_paired)
    (fun c w => ⟨[], none, Picks.nil, .nil, rfl, fun e he => by cases he⟩)
    (fun _ _ => post_cleanup_results) h

/-- The durations of nodes of pairs of rounds, on a clock that does not go backwards. -/
theorem map_durationNs {funcName : Text} {pairs : List (Round R × Round R)}
    {nodes : List TraceNode} (hnodes : List.Forall₂ (NodeOf funcName) pairs nodes)
    (hle : ∀ p ∈ pairs, p.1.nowNs.toNat ≤ p.2.nowNs.toNat) :
    nodes.map (fun node => node.durationNs.toNat) =
      pairs.map fun p => p.2.nowNs.toNat - p.1.nowNs.toNat := by
  induction hnodes with
  | nil => rfl
  | @cons p node pairs nodes hnode _ ih =>
    rw [List.forall_mem_cons] at hle
    rw [List.map_cons, List.map_cons, ih hle.2, hnode.durationNs,
      BitVec.toNat_sub_of_le (BitVec.le_def.2 hle.1)]

end Trace

/-- **The samples of `trace()` do not overlap.** They are of pairs of iterations of its loop, in
order and none in two of them, so their durations together are no longer than the readings of the
clock are apart, unless it goes backwards. -/
theorem trace_samples {A : Arch R} {impl : Impl} {funcName : Text} {count timeoutMs : ℤ}
    {env : Script R} {nodes : List TraceNode} {s t : Session R TraceVars TraceNode}
    (h : trace A impl funcName count timeoutMs env s = .ok nodes t) :
    ∃ pairs : List (Round R × Round R), (ends pairs).Sublist env.rounds ∧
      List.Forall₂ (Trace.NodeOf funcName) pairs nodes ∧
      ∀ a b : ℕ, (env.rounds.map fun r => r.nowNs.toNat).Pairwise (· ≤ ·) →
        (∀ r ∈ env.rounds, a ≤ r.nowNs.toNat ∧ r.nowNs.toNat ≤ b) →
        (nodes.map fun node => node.durationNs.toNat).sum ≤ b - a := by
  obtain ⟨c, v, rounds, hserves, hrounds, pairs, pending, hpaired⟩ := Trace.exists_paired h
  have hpicked := hpaired.picks.sublist.trans hrounds.sublist
  have hnodes := hserves.funcName ▸ hpaired.nodes
  refine ⟨pairs, hpicked, hnodes, fun a b hclock hbounds => ?_⟩
  have horder : (ends (pairs.map fun p => (p.1.nowNs.toNat, p.2.nowNs.toNat))).Pairwise
      (· ≤ ·) := by
    rw [← map_ends (fun r : Round R => r.nowNs.toNat)]
    exact hclock.sublist (hpicked.map _)
  have hmem : ∀ x ∈ ends (pairs.map fun p => (p.1.nowNs.toNat, p.2.nowNs.toNat)),
      a ≤ x ∧ x ≤ b := by
    intro x hx
    rw [← map_ends (fun r : Round R => r.nowNs.toNat)] at hx
    obtain ⟨r, hr, rfl⟩ := List.mem_map.1 hx
    exact hbounds r (hpicked.subset hr)
  have hle : ∀ p ∈ pairs, p.1.nowNs.toNat ≤ p.2.nowNs.toNat :=
    fun p hp => fst_le_snd horder _ (List.mem_map_of_mem hp)
  have hsum := sum_le_of_pairwise horder (fun x hx => (hmem x hx).1) fun x hx => (hmem x hx).2
  rw [List.map_map] at hsum
  rw [Trace.map_durationNs hnodes hle]
  exact hsum

/-- The tracee runs to an address, where the clock is read. -/
def Round.trapAt (addr : Addr) (nowNs : Word) : Round X86Regs :=
  { Round.polling [(0, .change (.trapAt addr))] with nowNs }

/-- A call of the function. -/
def Script.timedCall : Script X86Regs := .sampling [.trapAt 0x1000 100, .trapAt 0x2000 350]

theorem trace_samples_timedCall : ∃ nodes t,
    trace x86_64 Impl.single "f".toList 1 1 .timedCall (.single default) = .ok nodes t ∧
    nodes.map TraceNode.durationNs = [250] ∧
    (nodes.map fun node => node.durationNs.toNat).sum ≤ 350 - 100 := by
  have hrun : trace x86_64 Impl.single "f".toList 1 1 .timedCall (.single default) =
      .ok [⟨"f".toList, 250, 0, []⟩]
        (finalState (trace x86_64 Impl.single "f".toList 1 1 .timedCall) (.single default)) := by
    rfl
  obtain ⟨pairs, -, -, hsum⟩ := trace_samples hrun
  exact ⟨_, _, hrun, rfl, hsum 100 350 (by decide) (by decide)⟩

/-! ## `stack()` -/

namespace Stack

/-- A frame is shown as a function that is known, or as an address. -/
def Shown (finder : SymbolFinder) (frame : Text) : Prop :=
  (∃ fi ∈ finder.cache, frame = fi.name) ∨ ∃ x, frame = hexAddr x

/-- The frames of a sample: the function, its caller and up to fourteen more. -/
def ShownFrames (name : Text) (finder : SymbolFinder) (frames : List Text) : Prop :=
  ∃ callers, frames = name :: callers ∧ callers.length ≤ 15 ∧
    ∀ frame ∈ callers, Shown finder frame

/-- An event is of one round, where the clock is read. -/
structure EventOf (name : Text) (finder : SymbolFinder) (r : Round R) (ev : StackEvent) :
    Prop where
  timestampNs : ev.timestampNs = r.nowNs
  funcName : ev.funcName = name
  frames : ShownFrames name finder ev.frames

variable {A : Arch R} {c : Target} {rounds : List (Round R)} {r : Round R}

theorem shown_symFor (c : Target) (x : Addr) : Shown c.finder (symFor c x) := by
  rw [symFor_eq]
  cases hfound : c.finder.funcAt (linkAddr c x) with
  | none => exact .inr ⟨x, rfl⟩
  | some g =>
    obtain ⟨fi, hfi, hg⟩ := Option.bind_eq_some_iff.1 hfound
    obtain ⟨i, -, hi⟩ := Option.bind_eq_some_iff.1 hfi
    refine .inl ⟨fi, List.mem_of_getElem? hi, ?_⟩
    split_ifs at hg <;> cases hg <;> rfl

theorem length_visits_le {s : Session R V ν} {m : Mem} {n k : ℕ} {fp : Addr} :
    (visits s m n k fp).length ≤ n := by
  induction n generalizing k fp with
  | zero => exact le_rfl
  | succ n ih =>
    rw [visits]
    split_ifs
    · exact Nat.succ_le_succ ih
    · exact Nat.succ_le_succ (Nat.zero_le n)
    · exact Nat.zero_le _

theorem shown_of_mem_filterMap {s : Session R V ν} {m : Mem} {l : List Visit} {frame : Text}
    (h : frame ∈ l.filterMap (Visit.frame c s m)) : Shown c.finder frame := by
  obtain ⟨x, -, hx⟩ := List.mem_filterMap.1 h
  rw [Visit.frame] at hx
  split_ifs at hx
  · cases hx
    exact shown_symFor c _

theorem shownFrames_sampleFrames {s : Session R V ν} {m : Mem} {k : ℕ} {regs : R} :
    ShownFrames c.funcName c.finder (sampleFrames A c s m k regs) := by
  refine ⟨_, rfl, ?_, fun frame hframe => ?_⟩
  · split_ifs
    · exact Nat.succ_le_succ ((List.length_filterMap_le ..).trans length_visits_le)
    · exact Nat.zero_le _
  · split_ifs at hframe
    · rcases List.mem_cons.1 hframe with rfl | hframe
      · exact shown_symFor c _
      · exact shown_of_mem_filterMap hframe
    · cases hframe

/-- An entry hit that is handled records an event. -/
theorem post_entryHit_event {regs : R} {s : Session R StackVars StackEvent} :
    Post (entryHit A c r regs) s
      (fun _ t => ∃ ev, EventOf c.funcName c.finder r ev ∧ t.results = s.results ++ [ev])
      fun _ _ => True := by
  have hs := s.put_self
  rw [← hs]
  simp only [entryHit, post_bind, post_modify, post_get, post_restoreWord, post_setRegs,
    Session.put_answers, Session.put_tick, Session.put_setMem, Session.put_setRegs,
    Session.put_setVars, Session.put_vars, Session.put_tracee]
  refine ⟨fun _ => ⟨fun _ => post_frames_put fun j => ?_, fun _ => trivial⟩, fun _ => trivial⟩
  rw [post_ite]
  simp only [post_bind, post_pure, post_peekWord, post_insertBreakpoint, post_modify,
    Session.put_answers, Session.put_tick, Session.put_setMem, Session.put_setVars,
    Session.put_vars, Session.put_tracee, Session.put_push, Session.put_results]
  have hevent : ∀ {frames : List Text}, ShownFrames c.funcName c.finder frames →
      ∃ ev, EventOf c.funcName c.finder r ev ∧
        s.results ++ [⟨r.nowNs, c.funcName, frames⟩] = s.results ++ [ev] :=
    fun hframes => ⟨_, ⟨rfl, rfl, hframes⟩, rfl⟩
  have hframes : ShownFrames c.funcName c.finder (sampleFrames A c s
      (entryMem c s.tracee.mem s.vars) (s.issued + 2) (A.setIp regs c.entryVaddr)) :=
    shownFrames_sampleFrames
  have hsample := hevent hframes
  refine ⟨fun _ => hsample, fun _ => ⟨fun _ => ?_, fun _ => ?_⟩⟩
  · exact ⟨fun _ => ⟨fun _ => hsample, fun _ => trivial⟩, fun _ => trivial⟩
  · exact ⟨fun _ => ⟨fun _ => hsample, fun _ => trivial⟩, fun _ => trivial⟩

/-- What the loop of `stack()` has done: its events are of rounds in order, and there are no more
of them than asked for. -/
structure Sampled (c : Target) (rounds picked : List (Round R)) (l : List StackEvent) : Prop where
  picks : picked.Sublist rounds
  events : List.Forall₂ (EventOf c.funcName c.finder) picked l
  length_le : 0 ≤ c.count → (l.length : ℤ) ≤ c.count

theorem history_sampled : (stackCommand A).History c fun rounds _ l =>
    ∃ picked, Sampled c rounds picked l where
  skip := by
    rintro rounds r v l ⟨picked, h⟩
    exact ⟨picked, h.picks.trans (List.sublist_append_left ..), h.events, h.length_le⟩
  hit := by
    rintro rounds r s hlt ⟨picked, h⟩
    have hskip : ∃ picked, Sampled c (rounds ++ [r]) picked s.results :=
      ⟨picked, h.picks.trans (List.sublist_append_left ..), h.events, h.length_le⟩
    change Post (hit A c r) s _ _
    rw [post_hit]
    refine ⟨fun _ => ⟨fun _ => ?_, fun _ => ⟨fun _ => ?_, fun _ => hskip⟩⟩, fun _ => trivial⟩
    · refine post_entryHit_event.mono (fun _ t => ?_) fun _ _ h => h
      rintro ⟨ev, hev, hresults⟩
      rw [hresults]
      refine ⟨picked ++ [r], h.picks.append (List.Sublist.refl _),
        List.rel_append h.events (.cons hev .nil), fun _ => ?_⟩
      rw [List.length_append, List.length_singleton]
      push_cast
      exact Int.add_one_le_of_lt hlt
    · rw [post_returnHit rfl]
      simp only [implies_true, and_true]
      intro _ _ _ _
      exact hskip

theorem post_cleanup_results {s : Session R StackVars StackEvent} :
    Post (cleanup c) s (fun _ t => t.results = s.results) fun _ _ => True := by
  suffices h : Post (cleanup c) (s.put s.issued s.tracee.mem s.tracee.regs s.vars s.results)
      (fun _ t => t.results = s.results) fun _ _ => True from h
  simp [cleanup, post_restoreWord, post_ptraceDetach]

theorem exists_sampled {impl : Impl} {funcName : Text} {count timeoutMs : ℤ} {env : Script R}
    {evs : List StackEvent} {s t : Session R StackVars StackEvent}
    (h : stack A impl funcName count timeoutMs env s = .ok evs t) :
    ∃ c rounds, Command.Serves impl funcName count c ∧ rounds <+: env.rounds ∧
      ∃ picked, Sampled c rounds picked evs := by
  obtain ⟨c, v, rounds, hserves, hrounds, hsampled⟩ :=
    Command.history_of_run (C := stackCommand A) (fun _ => history_sampled)
      (fun c w => ⟨[], .slnil, .nil, fun h => h⟩) (fun _ _ => post_cleanup_results) h
  exact ⟨c, rounds, hserves, hrounds, hsampled⟩

end Stack

/-- **The samples of `stack()`** are no more than asked for, and each is of an iteration of its own,
in order, with the readings of the clock there: the function, and up to fifteen frames that are
functions or addresses. -/
theorem stack_samples {A : Arch R} {impl : Impl} {funcName : Text} {count timeoutMs : ℤ}
    {env : Script R} {evs : List StackEvent} {s t : Session R StackVars StackEvent}
    (h : stack A impl funcName count timeoutMs env s = .ok evs t) :
    ∃ finder, impl.finder = .ok finder ∧ (evs.length : ℤ) ≤ count ∧
      ∃ rounds : List (Round R), rounds.Sublist env.rounds ∧
        List.Forall₂ (Stack.EventOf funcName finder) rounds evs := by
  obtain ⟨c, rounds, ⟨rfl, hfinder, -, rfl, hcount⟩, hrounds, picked, hsampled⟩ :=
    Stack.exists_sampled h
  exact ⟨c.finder, hfinder, hsampled.length_le hcount, picked,
    hsampled.picks.trans hrounds.sublist, hsampled.events⟩

theorem stack_timedCall :
    stack x86_64 Impl.single "f".toList 1 1 .timedCall (.single default) =
      .ok [⟨100, "f".toList, ["f".toList, Stack.hexAddr 0x2000]⟩]
        (finalState (stack x86_64 Impl.single "f".toList 1 1 .timedCall) (.single default)) := by
  rfl

theorem stack_samples_timedCall : ∃ evs t,
    stack x86_64 Impl.single "f".toList 1 1 .timedCall (.single default) = .ok evs t ∧
    evs.map StackEvent.frames = [["f".toList, Stack.hexAddr 0x2000]] ∧
    (evs.length : ℤ) ≤ 1 ∧ ∃ rounds : List (Round X86Regs),
      rounds.Sublist Script.timedCall.rounds ∧
      List.Forall₂ (fun r ev => ev.timestampNs = r.nowNs) rounds evs := by
  obtain ⟨finder, -, hlength, rounds, hrounds, hevents⟩ := stack_samples stack_timedCall
  exact ⟨_, _, stack_timedCall, rfl, hlength, rounds, hrounds,
    hevents.imp fun _ _ hev => hev.timestampNs⟩

end Uatu
