import Uatu.Engine.Attribution
import Uatu.Engine.Firings
import Uatu.Engine.SampleOrder
import Uatu.Foundations.Lockstep

/-!
# Asking for fewer samples

A command that is asked for fewer samples returns the first of those that it returns when it is
asked for more, if the process and the system do the same up to there: of the eBPF path of `watch`
(`watch_truncates`), and of `trace()` and `stack()` (`Command.Truncates.run`), although `stack()`
does not plant a return breakpoint for the last sample it is asked for.
-/

namespace Uatu

open Throwing

variable {R V ν : Type}

/-! ## The eBPF path -/

namespace Watch

/-- With another bound on the number of events. -/
def upTo (w : Watch) (n : ℤ) : Watch := { w with maxEvents := n }

variable {w : Watch} {n m : ℤ} {s s' : WatchState}

/-- Two loops that are asked for `n` events and for more: they are in the same state, or the first
has its events and the second goes on from there. -/
structure Truncated (n : ℤ) (s s' : WatchState) : Prop where
  length_le : (s.events.length : ℤ) ≤ n
  same : (s.events.length : ℤ) < n → s = s'
  events : s.events <+: s'.events

theorem Truncated.of_eq (h : (s.events.length : ℤ) ≤ n) : Truncated n s s :=
  ⟨h, fun _ => rfl, List.prefix_rfl⟩

/-- With room for one more event in both, the callback does the same. -/
theorem callback_upTo {d : Delivery} (hn : (s.events.length : ℤ) < n) (hnm : n ≤ m) :
    (w.upTo n).callback s d = (w.upTo m).callback s d := by
  unfold callback
  rw [if_neg (c := (s.events.length : ℤ) ≥ (w.upTo n).maxEvents) (not_le.2 hn),
    if_neg (c := (s.events.length : ℤ) ≥ (w.upTo m).maxEvents) (not_le.2 (hn.trans_le hnm))]
  rfl

theorem Truncated.callback (h : Truncated n s s') (hnm : n ≤ m) (d : Delivery) :
    Truncated n ((w.upTo n).callback s d) ((w.upTo m).callback s' d) := by
  by_cases hn : (s.events.length : ℤ) < n
  · obtain rfl := h.same hn
    rw [← callback_upTo hn hnm]
    exact .of_eq (length_callback h.length_le d)
  · have hfull := events_callback_of_le (w := w.upTo n) d (not_lt.1 hn)
    refine ⟨hfull ▸ h.length_le, fun hlt => absurd (hfull ▸ hlt) hn, ?_⟩
    rw [hfull]
    exact h.events.trans (events_callback s' d)

theorem Truncated.foldl (h : Truncated n s s') (hnm : n ≤ m) (records : List Delivery) :
    Truncated n (records.foldl (w.upTo n).callback s) (records.foldl (w.upTo m).callback s') := by
  induction records generalizing s s' with
  | nil => exact h
  | cons d records ih => exact ih (h.callback hnm d)

/-- The loop only adds events. -/
theorem events_prefix_loop {deadline : ℤ} {polls : List Poll} :
    s.events <+: (w.loop deadline polls s).events := by
  induction polls generalizing s with
  | nil => exact List.prefix_rfl
  | cons p polls ih =>
    rw [loop]
    split_ifs
    · exact List.prefix_rfl
    · exact List.prefix_rfl
    · exact (events_foldl s p.records).trans ih
    · exact List.prefix_rfl

theorem Truncated.loop {deadline : ℤ} {polls : List Poll} (h : Truncated n s s') (hnm : n ≤ m) :
    Truncated n ((w.upTo n).loop deadline polls s) ((w.upTo m).loop deadline polls s') := by
  induction polls generalizing s s' with
  | nil => exact h
  | cons p polls ih =>
    by_cases hn : (s.events.length : ℤ) < n
    · obtain rfl := h.same hn
      have hroom : (s.events.length : ℤ) < (w.upTo n).maxEvents := hn
      have hroom' : (s.events.length : ℤ) < (w.upTo m).maxEvents := hn.trans_le hnm
      rw [Watch.loop, Watch.loop, if_neg (not_not.2 hroom), if_neg (not_not.2 hroom')]
      split_ifs
      · exact h
      · exact h
      · exact ih (h.foldl hnm p.records)
    · have hstop : (w.upTo n).loop deadline (p :: polls) s = s := by
        rw [Watch.loop]
        exact if_pos hn
      rw [hstop]
      exact ⟨h.length_le, fun hlt => absurd hlt hn, h.events.trans events_prefix_loop⟩

/-- **The first events.** -/
theorem events_loop_upTo {deadline : ℤ} {polls : List Poll} (hn : 0 ≤ n) (hnm : n ≤ m) :
    ((w.upTo n).loop deadline polls start).events =
      ((w.upTo m).loop deadline polls start).events.take n.toNat := by
  have h : Truncated n ((w.upTo n).loop deadline polls start)
      ((w.upTo m).loop deadline polls start) := Truncated.loop (.of_eq hn) hnm
  by_cases hlt : (((w.upTo n).loop deadline polls start).events.length : ℤ) < n
  · rw [← h.same hlt, List.take_of_length_le (by omega)]
  · have hle := h.length_le
    rw [List.prefix_iff_eq_take.1 h.events]
    congr 1
    omega

end Watch

/-- **`watch` asked for fewer events** returns the first of those that it returns when it is asked
for more, where both take the eBPF path. -/
theorem watch_truncates {env : WatchScript R} {w : Watch} {n m timeoutMs : ℤ}
    {world world' u u' : World R} {evs evs' : List WatchEvent} (hn : 0 ≤ n) (hnm : n ≤ m)
    (h : WatchChecked.ebpfWatch env (w.upTo n) timeoutMs world = .ok evs u)
    (h' : WatchChecked.ebpfWatch env (w.upTo m) timeoutMs world' = .ok evs' u') :
    evs = evs'.take n.toNat := by
  rw [WatchChecked.events_ebpfWatch.ok h, WatchChecked.events_ebpfWatch.ok h']
  exact Watch.events_loop_upTo hn hnm

open WatchChecked Watch in
theorem watch_truncates_twoAt : ∃ evs evs' u u',
    ebpfWatch (.ebpf foldedPolls) ((twoAt 0x1000 0x1000).upTo 1) 1000
      (World.init 1 (Session.single default)) = .ok evs u ∧
    ebpfWatch (.ebpf foldedPolls) ((twoAt 0x1000 0x1000).upTo 2) 1000
      (World.init 1 (Session.single default)) = .ok evs' u' ∧
    evs.length = 1 ∧ evs'.length = 2 ∧ evs = evs'.take 1 := by
  obtain ⟨evs, u, h⟩ : ∃ evs u, ebpfWatch (.ebpf foldedPolls) ((twoAt 0x1000 0x1000).upTo 1) 1000
    (World.init 1 (Session.single default)) = .ok evs u ∧ evs.length = 1 := ⟨_, _, rfl, rfl⟩
  obtain ⟨evs', u', h'⟩ : ∃ evs u, ebpfWatch (.ebpf foldedPolls) ((twoAt 0x1000 0x1000).upTo 2) 1000
    (World.init 1 (Session.single default)) = .ok evs u ∧ evs.length = 2 := ⟨_, _, rfl, rfl⟩
  exact ⟨evs, evs', u, u', h.1, h'.1, h.2, h'.2,
    watch_truncates (n := 1) (m := 2) (by decide) (by decide) h.1 h'.1⟩

/-! ## `trace()` and `stack()` -/

/-- With another number of samples asked for. -/
def Target.upTo (c : Target) (n : ℤ) : Target := { c with count := n }

namespace Command

/-- What makes a command that is asked for fewer samples return the first of those that it returns
when it is asked for more: each stop adds one sample at most, and the number asked for matters only
to a stop that adds the last sample. -/
structure Truncates (C : Command R V ν) : Prop where
  start : ∀ (c : Target) n, C.start (c.upTo n) = C.start c
  hit_results : ∀ c r s, Post (C.hit c r) s
    (fun _ t => t.results = s.results ∨ ∃ x, t.results = s.results ++ [x]) fun _ _ => True
  cleanup : ∀ c s, Post (C.cleanup c) s (fun _ t => t.results = s.results) fun _ _ => True
  hit : ∀ (c : Target) r n m s, (s.results.length : ℤ) < n → n ≤ m →
    Lockstep (C.hit (c.upTo n) r) (C.hit (c.upTo m) r) s (some .count)
      fun t u => (t.results.length : ℤ) = n ∧ u.results = t.results

variable {C : Command R V ν} {c : Target} {n m deadline : ℤ} {r : Round R} {rounds : List (Round R)}
  {s : Session R V ν}

/-- An iteration adds one sample at most. -/
theorem Truncates.post_round (h : C.Truncates) : Post (C.round c deadline r) s
    (fun _ t => t.results = s.results ∨ ∃ x, t.results = s.results ++ [x]) fun _ _ => True := by
  refine Command.post_round (fun _ => .inl rfl) (.inl rfl) (.inl rfl) fun _ => ?_
  have hsame : (s.resume r).results = s.results := s.resume_results r
  refine post_await (.inl hsame) (.inl hsame) (fun _ _ _ _ _ => .inl hsame)
    (fun b _ _ _ cause _ _ => .inl ?_) fun b _ _ _ _ _ _ => ?_
  · rw [Session.forward_results, Session.reported_results, hsame]
  · refine (h.hit_results c r _).mono (fun _ t ht => ?_) fun _ _ h => h
    rwa [Session.withFault_results, Session.reported_results, hsame] at ht

/-- The loop only adds samples. -/
theorem Truncates.post_loop (h : C.Truncates) (l : List ν) (hs : l <+: s.results) :
    Post (C.loop c deadline rounds) s (fun _ t => l <+: t.results) fun _ _ => True := by
  refine Command.post_loop (I := fun t => l <+: t.results) (fun _ hs _ => hs) (fun _ hs => hs)
    (fun r _ s hs => h.post_round.mono (fun e t ht => ?_) fun _ _ h => h) hs
  have hle : l <+: t.results := by
    rcases ht with ht | ⟨x, ht⟩
    · rwa [ht]
    · rw [ht]
      exact hs.trans (List.prefix_append ..)
  cases e <;> exact hle

/-- The second halves of two iterations with room for one more sample in both. -/
theorem Truncates.lockstep_await (h : C.Truncates) (hn : (s.results.length : ℤ) < n)
    (hnm : n ≤ m) : Lockstep (C.await (c.upTo n) deadline r) (C.await (c.upTo m) deadline r) s
      (some .count) fun t u => (t.results.length : ℤ) = n ∧ u.results = t.results := by
  unfold Command.await
  refine lockstep_ite (fun _ => .refl ..) fun _ => lockstep_bind ?_
  refine post_waitpidTimeout (.refl ..) fun b _ _ _ => ?_
  change Lockstep _ _ (s.reported b) _ _
  cases waitStatus (s.tracee.advance b).report with
  | exited => exact .refl ..
  | stopped cause =>
    refine lockstep_ite (fun _ => .refl ..) fun _ => lockstep_bind (post_modify.2 ?_)
    exact h.hit c r n m _ hn hnm

/-- Two iterations with room for one more sample in both. -/
theorem Truncates.lockstep_round (h : C.Truncates) (hn : (s.results.length : ℤ) < n)
    (hnm : n ≤ m) : Lockstep (C.round (c.upTo n) deadline r) (C.round (c.upTo m) deadline r) s
      (some .count) fun t u => (t.results.length : ℤ) = n ∧ u.results = t.results := by
  have hroom : (s.results.length : ℤ) < (c.upTo n).count := hn
  have hroom' : (s.results.length : ℤ) < (c.upTo m).count := hn.trans_le hnm
  unfold Command.round
  refine lockstep_bind (post_get.2 ?_)
  rw [if_neg (not_not.2 hroom), if_neg (not_not.2 hroom')]
  refine lockstep_ite (fun _ => .refl ..) fun _ => lockstep_ite (fun _ => .refl ..) fun _ => ?_
  refine lockstep_bind (post_modify.2 (lockstep_bind (post_get.2 ?_)))
  refine lockstep_ite (fun _ => lockstep_bind (post_contWith.2 ?_)) fun _ => ?_
  · refine lockstep_bind (post_modify.2 (h.lockstep_await ?_ hnm))
    simpa using hn
  · exact lockstep_bind (post_modify.2 (h.lockstep_await hn hnm))

/-- A loop without rounds leaves everything as it is. -/
theorem post_loop_nil : Post (C.loop c deadline []) s (fun _ t => t = s) fun _ _ => False := by
  simp only [Command.loop, post_bind, post_get, post_ite, post_pure]
  exact ⟨fun _ => trivial, fun _ => trivial⟩

/-- And so does a loop that has its samples. -/
theorem post_loop_full (hs : ¬ (s.results.length : ℤ) < c.count) :
    Post (C.loop c deadline rounds) s (fun _ t => t = s) fun _ _ => False := by
  cases rounds with
  | nil => exact post_loop_nil
  | cons r rounds =>
    simp only [Command.loop, Command.round, post_bind, post_get, post_ite, post_pure]
    exact ⟨fun _ => trivial, fun hlt => absurd hs hlt⟩

/-- What goes on from `n` samples has these as its first. -/
theorem eq_take_of_prefix {l l' : List ν} (h : l <+: l') (hn : (l.length : ℤ) = n) :
    l = l'.take n.toNat := by
  rw [← hn, Int.toNat_natCast]
  exact List.prefix_iff_eq_take.1 h

/-- **The first samples**: a loop that is asked for `n` samples and one that is asked for more. -/
theorem Truncates.results_loop (h : C.Truncates) {e e' : LoopExit} {t t' : Session R V ν}
    (hs : (s.results.length : ℤ) ≤ n) (hnm : n ≤ m)
    (ht : C.loop (c.upTo n) deadline rounds s = .ok e t)
    (ht' : C.loop (c.upTo m) deadline rounds s = .ok e' t') :
    t.results = t'.results.take n.toNat := by
  induction rounds generalizing s with
  | nil =>
    obtain rfl := post_loop_nil.ok ht
    obtain rfl := post_loop_nil.ok ht'
    rw [List.take_of_length_le (by omega)]
  | cons r rounds ih =>
    by_cases hroom : (s.results.length : ℤ) < n
    · rw [Command.loop] at ht ht'
      obtain ⟨a, u, hu, ht⟩ := bind_eq_ok ht
      obtain ⟨a', u', hu', ht'⟩ := bind_eq_ok ht'
      have hlength : (u.results.length : ℤ) ≤ n := by
        rcases h.post_round.ok hu with hres | ⟨x, hres⟩
        · rwa [hres]
        · rw [hres, List.length_append, List.length_singleton]
          omega
      have hlockstep : Lockstep (C.round (c.upTo n) deadline r) (C.round (c.upTo m) deadline r) s
          (some .count) fun t u => (t.results.length : ℤ) = n ∧ u.results = t.results :=
        h.lockstep_round hroom hnm
      rcases hlockstep with heq | ⟨v, hv, hlast⟩
      · rw [hu, hu'] at heq
        cases heq
        cases a with
        | none => exact ih hlength ht ht'
        | some a =>
          cases ht
          cases ht'
          rw [List.take_of_length_le (by omega)]
      · cases hu.symm.trans hv
        obtain ⟨hn, hres⟩ := hlast.ok hu'
        cases ht
        refine eq_take_of_prefix ?_ hn
        cases a' with
        | none => exact (h.post_loop _ (hres ▸ List.prefix_rfl)).ok ht'
        | some a' =>
          cases ht'
          rw [hres]
    · obtain rfl := (post_loop_full (c := c.upTo n) hroom).ok ht
      exact eq_take_of_prefix ((h.post_loop _ List.prefix_rfl).ok ht') (by omega)

variable {impl : Impl} {funcName : Text} {timeoutMs : ℤ} {env : Script R}

/-- What comes before the loop does not depend on the number of samples asked for. -/
theorem prepare_upTo {s₁ : Session R V ν} (hm : 0 ≤ m)
    (hprep : C.prepare impl funcName n timeoutMs env s = .ok (c, deadline) s₁) :
    C.prepare impl funcName m timeoutMs env s = .ok (c.upTo m, deadline) s₁ := by
  have hn : 0 ≤ n := (count_of_prepare.ok hprep).2
  unfold prepare at hprep ⊢
  simp only [if_neg hm.not_gt, if_neg hn.not_gt] at hprep ⊢
  cases hfinder : impl.finder with
  | error text => simp only [hfinder] at hprep; cases hprep
  | ok finder =>
    simp only [hfinder] at hprep ⊢
    cases hfind : finder.find funcName with
    | none => simp only [hfind] at hprep; cases hprep
    | some info =>
      simp only [hfind] at hprep ⊢
      split_ifs at hprep ⊢
      · cases hprep
      · cases hattach : env.attachError with
        | some text => simp only [hattach] at hprep; cases hprep
        | none =>
          simp only [hattach] at hprep ⊢
          obtain ⟨_, s₂, hattached, hprep⟩ := bind_eq_ok hprep
          obtain ⟨status, s₃, hwait, hprep⟩ := bind_eq_ok hprep
          rw [bind_ok hattached, bind_ok hwait]
          cases status with
          | none =>
            obtain ⟨_, _, _, hprep⟩ := bind_eq_ok hprep
            cases hprep
          | some status =>
            cases hprep
            rfl

theorem Truncates.arm_upTo (h : C.Truncates) : C.arm (c.upTo n) env = C.arm c env := by
  unfold Command.arm
  simp only [h.start]
  rfl

/-- **A command that is asked for fewer samples** returns the first of those that it returns when
it is asked for more. -/
theorem Truncates.run (h : C.Truncates) {l l' : List ν} {t t' : Session R V ν} (hnm : n ≤ m)
    (hrun : C.run impl funcName n timeoutMs env s = .ok l t)
    (hrun' : C.run impl funcName m timeoutMs env s = .ok l' t') : l = l'.take n.toNat := by
  obtain ⟨c, deadline, s₁, s₂, e, s₃, hprep, harm, hloop, hfinish⟩ := run_eq_ok hrun
  obtain ⟨c', deadline', s₁', s₂', e', s₃', hprep', harm', hloop', hfinish'⟩ := run_eq_ok hrun'
  obtain ⟨hcount, hn⟩ := count_of_prepare.ok hprep
  have hlist : ∀ {c : Target} {s : Session R V ν},
      Post (C.finish c env) s (fun l _ => l = s.results) fun _ _ => True := by
    intro c s
    simp only [finish, post_bind, post_modify, post_get, post_pure]
    exact h.cleanup c _
  cases (prepare_upTo (m := m) (hn.trans hnm) hprep).symm.trans hprep'
  rw [h.arm_upTo, harm] at harm'
  cases harm'
  rw [hlist.ok hfinish, hlist.ok hfinish']
  have hstart : s₂.results = [] :=
    (armed_of_arm harm).results.trans (prepared_of_prepare hprep).results
  have hloop₀ : C.loop (c.upTo n) deadline env.rounds s₂ = .ok e s₃ := by
    rw [← hloop, ← hcount]
    rfl
  exact h.results_loop (by rw [hstart]; exact hn) hnm hloop₀ hloop'

end Command

theorem Trace.truncates (A : Arch R) : (traceCommand A).Truncates where
  start _ _ := rfl
  hit_results c r s := by
    change Post (Trace.hit A c r) s _ _
    rw [Trace.post_hit]
    refine ⟨fun _ => ⟨fun _ => ?_, fun _ => ⟨fun _ => ?_, fun _ => .inl rfl⟩⟩, fun _ => trivial⟩
    · rw [Trace.post_entryHit rfl]
      simp
    · rw [Trace.post_returnHit rfl]
      simp
  cleanup _ _ := Trace.post_cleanup_results
  hit _ _ _ _ _ _ _ := .refl ..

namespace Stack

variable {A : Arch R} {c : Target} {n m : ℤ} {r : Round R} {regs : R}
  {s : Session R StackVars StackEvent}

/-- The frames of a sample do not depend on the number of samples asked for. -/
theorem walk_upTo (k : ℕ) (fp : Word) :
    (walk (c.upTo n) k fp : Engine R V ν (List Text)) = walk c k fp := by
  induction k generalizing fp with
  | zero => rfl
  | succ k ih =>
    simp only [walk, ih]
    rfl

theorem frames_upTo : (frames A (c.upTo n) regs : Engine R V ν (List Text)) = frames A c regs := by
  simp only [frames, walk_upTo]
  rfl

/-- Two entry hits with room for one more sample in both: the one that adds the last sample ends
there, and the other goes on to the return breakpoint. -/
theorem lockstep_entryHit (hn : (s.results.length : ℤ) < n) (hnm : n ≤ m) :
    Lockstep (entryHit A (c.upTo n) r regs) (entryHit A (c.upTo m) r regs) s (some .count)
      fun t u => (t.results.length : ℤ) = n ∧ u.results = t.results := by
  unfold entryHit
  refine lockstep_bind (post_get.2 (lockstep_bind ?_))
  refine post_restoreWord.2 ⟨fun _ => lockstep_bind (post_modify.2 (lockstep_bind ?_)),
    fun _ => trivial⟩
  refine post_setRegs.2 ⟨fun _ => ?_, fun _ => trivial⟩
  rw [frames_upTo, frames_upTo]
  refine lockstep_bind (post_frames fun fs k _ => ?_)
  refine lockstep_bind (post_modify.2 (lockstep_bind (post_get.2 ?_)))
  generalize hu : Session.push _ _ = u
  have hlength : (u.results.length : ℤ) = s.results.length + 1 := by
    rw [← hu]
    simp [Session.push]
  by_cases hroom : (u.results.length : ℤ) < n
  · rw [if_neg (c := ¬ (u.results.length : ℤ) < (c.upTo n).count) (not_not.2 hroom),
      if_neg (c := ¬ (u.results.length : ℤ) < (c.upTo m).count) (not_not.2 (hroom.trans_le hnm))]
    exact .refl ..
  · rw [if_pos (c := ¬ (u.results.length : ℤ) < (c.upTo n).count) hroom]
    refine .early ?_
    have hfull : (u.results.length : ℤ) = n := by omega
    simp only [post_ite, post_bind, post_pure, post_peekWord, post_insertBreakpoint, post_modify,
      Session.setVars_results, Session.setMem_results, Session.tick_results, and_true]
    refine ⟨fun _ => hfull, fun _ => ⟨fun _ => ?_, fun _ => ?_⟩⟩
    · exact ⟨fun _ => ⟨fun _ => hfull, fun _ => trivial⟩, fun _ => trivial⟩
    · exact ⟨fun _ => ⟨fun _ => hfull, fun _ => trivial⟩, fun _ => trivial⟩

end Stack

theorem Stack.truncates (A : Arch R) : (stackCommand A).Truncates where
  start _ _ := rfl
  hit_results c r s := by
    change Post (Stack.hit A c r) s _ _
    rw [Stack.post_hit]
    refine ⟨fun _ => ⟨fun _ => ?_, fun _ => ⟨fun _ => ?_, fun _ => .inl rfl⟩⟩, fun _ => trivial⟩
    · refine Stack.post_entryHit_event.mono (fun _ t => ?_) fun _ _ h => h
      rintro ⟨ev, _, ht⟩
      exact .inr ⟨ev, ht⟩
    · rw [Stack.post_returnHit rfl]
      simp
  cleanup _ _ := Stack.post_cleanup_results
  hit c r n m s hn hnm := by
    refine lockstep_bind (post_getRegs.2 ⟨fun _ => ?_, fun _ => trivial⟩)
    refine lockstep_bind (post_get.2 ?_)
    exact lockstep_ite (fun _ => Stack.lockstep_entryHit hn hnm) fun _ => .refl ..

/-- Two calls of the function. -/
def Script.callTwice : Script X86Regs :=
  .sampling [.trapAt 0x1000 100, .trapAt 0x2000 350, .trapAt 0x1000 400, .trapAt 0x2000 450]

/-- How many samples a run has returned. -/
def sampleCount : EStateM.Result Exception (Session R V ν) (List ν) → ℕ
  | .ok samples _ => samples.length
  | .error _ _ => 0

theorem exists_of_sampleCount {k : ℕ} (hk : 0 < k)
    {result : EStateM.Result Exception (Session R V ν) (List ν)}
    (h : sampleCount result = k) : ∃ samples t, result = .ok samples t ∧ samples.length = k := by
  subst h
  cases result with
  | ok samples t => exact ⟨samples, t, rfl, rfl⟩
  | error e t => exact absurd hk (lt_irrefl 0)

/-- **`trace()` asked for fewer samples** returns the first of those that it returns when it is
asked for more. -/
theorem trace_truncates {A : Arch R} {impl : Impl} {funcName : Text} {n m timeoutMs : ℤ}
    {env : Script R} {nodes nodes' : List TraceNode} {s t t' : Session R TraceVars TraceNode}
    (hnm : n ≤ m) (h : trace A impl funcName n timeoutMs env s = .ok nodes t)
    (h' : trace A impl funcName m timeoutMs env s = .ok nodes' t') :
    nodes = nodes'.take n.toNat :=
  (Trace.truncates A).run hnm h h'

theorem trace_truncates_callTwice : ∃ nodes nodes' t t',
    trace x86_64 Impl.single "f".toList 1 1 .callTwice (.single default) = .ok nodes t ∧
    trace x86_64 Impl.single "f".toList 2 1 .callTwice (.single default) = .ok nodes' t' ∧
    nodes.length = 1 ∧ nodes'.length = 2 ∧ nodes = nodes'.take 1 := by
  have hone : sampleCount (trace x86_64 Impl.single "f".toList 1 1 .callTwice
      (.single default)) = 1 := by decide +kernel
  have htwo : sampleCount (trace x86_64 Impl.single "f".toList 2 1 .callTwice
      (.single default)) = 2 := by decide +kernel
  obtain ⟨nodes, t, h, hone⟩ := exists_of_sampleCount Nat.one_pos hone
  obtain ⟨nodes', t', h', htwo⟩ := exists_of_sampleCount Nat.two_pos htwo
  exact ⟨nodes, nodes', t, t', h, h', hone, htwo, trace_truncates (n := 1) (by decide) h h'⟩

/-- **And so does `stack()`**, which does not plant a return breakpoint for the last of them. -/
theorem stack_truncates {A : Arch R} {impl : Impl} {funcName : Text} {n m timeoutMs : ℤ}
    {env : Script R} {evs evs' : List StackEvent} {s t t' : Session R StackVars StackEvent}
    (hnm : n ≤ m) (h : stack A impl funcName n timeoutMs env s = .ok evs t)
    (h' : stack A impl funcName m timeoutMs env s = .ok evs' t') :
    evs = evs'.take n.toNat :=
  (Stack.truncates A).run hnm h h'

theorem stack_truncates_callTwice : ∃ evs evs' t t',
    stack x86_64 Impl.single "f".toList 1 1 .callTwice (.single default) = .ok evs t ∧
    stack x86_64 Impl.single "f".toList 2 1 .callTwice (.single default) = .ok evs' t' ∧
    evs.length = 1 ∧ evs'.length = 2 ∧ evs = evs'.take 1 := by
  have hone : sampleCount (stack x86_64 Impl.single "f".toList 1 1 .callTwice
      (.single default)) = 1 := by decide +kernel
  have htwo : sampleCount (stack x86_64 Impl.single "f".toList 2 1 .callTwice
      (.single default)) = 2 := by decide +kernel
  obtain ⟨evs, t, h, hone⟩ := exists_of_sampleCount Nat.one_pos hone
  obtain ⟨evs', t', h', htwo⟩ := exists_of_sampleCount Nat.two_pos htwo
  exact ⟨evs, evs', t, t', h, h', hone, htwo, stack_truncates (n := 1) (by decide) h h'⟩

end Uatu
