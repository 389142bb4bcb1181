import Uatu.Engine.TraceInvariant
import Uatu.Foundations.CallStack

/-!
# Which return a sample is of

`trace()` tells entry and return by the address of the stop alone. Here its loop runs on a tracee
that is followed through its calls (`CallStack.Calls`): recursion, exceptions and an attach in the
middle of a call are all among the moves it may make. A `Sample` is what two stops of the loop
make of it, and the question is whether the second is the return of the invocation that the first
is the entry of.
-/

namespace Uatu

open ByteMemory Throwing CallStack

variable {R : Type}

/-- The tracee is reported in a `SIGTRAP` stop. -/
def Trapped (t : Tracee R) : Prop :=
  ∃ cause, waitStatus t = .stopped cause ∧ cause.stopSig = SIGTRAP

namespace Trace

variable (A : Arch R) (c : Target) (deadline : ℤ)

/-- An iteration of the loop, in which the tracee does `b` and makes the moves `ms`. It stops for
the planted breakpoint when it gets there, and not otherwise. -/
structure Iteration (K : Calls Addr) (ms : List (Move Addr)) (r : Round R) (b : Behaviour R)
    (t u : Session R TraceVars TraceNode) : Prop where
  does : behaviours r.polls = [b]
  round : (traceCommand A).round c deadline r t = .ok none u
  before : ∀ j < ms.length, (K.after (ms.take j)).here ≠ (planted c t.vars).1
  traps : (K.after ms).here = (planted c t.vars).1 ↔
    Trapped ((t.resume r).reported b).tracee ∧
      A.getIp ((t.resume r).reported b).tracee.regs - A.pcAdjustAfterTrap = (planted c t.vars).1

/-- The stop that starts a sample: the number of moves up to it, and what the loop keeps of it. -/
structure Entry where
  pos : ℕ
  retVaddr : Addr
  ts : Word

/-- Two stops that make a sample. -/
structure Sample (R : Type) where
  entry : Entry
  pos : ℕ
  ts : Word
  regs : R

/-- The `TraceNode` of a sample. -/
def Sample.node (x : Sample R) : TraceNode :=
  { funcName := c.funcName, durationNs := x.ts - x.entry.ts, retRaw := A.getRet x.regs }

/-- Iterations of the loop from `s` on, on a tracee in the course of the calls `K`: the moves it
makes, the sample that is not complete and those that are. -/
inductive Run (K : Calls Addr) (s : Session R TraceVars TraceNode) : List (Round R) →
    List (Move Addr) → Option Entry → List (Sample R) → Session R TraceVars TraceNode → Prop
  | start : Run K s [] [] none [] s
  | enters {rounds log samples t ms r b u} (h : Run K s rounds log none samples t)
      (hi : Iteration A c deadline (K.after log) ms r b t u) (hw : u.vars.waitingForExit = true) :
      Run K s (rounds ++ [r]) (log ++ ms)
        (some ⟨(log ++ ms).length, u.vars.retVaddr, u.vars.entryTs⟩) samples u
  | leaves {rounds log samples t ms r b u e} (h : Run K s rounds log (some e) samples t)
      (hi : Iteration A c deadline (K.after log) ms r b t u) (hw : u.vars.waitingForExit = false) :
      Run K s (rounds ++ [r]) (log ++ ms) none
        (samples ++ [⟨e, (log ++ ms).length, r.nowNs, ((t.resume r).reported b).tracee.regs⟩]) u
  | passes {rounds log pending samples t ms r b u} (h : Run K s rounds log pending samples t)
      (hi : Iteration A c deadline (K.after log) ms r b t u)
      (hw : u.vars.waitingForExit = pending.isSome) :
      Run K s (rounds ++ [r]) (log ++ ms) pending samples u

variable {A c deadline} {K : Calls Addr} {ms log : List (Move Addr)} {r : Round R}
  {b : Behaviour R} {s t u : Session R TraceVars TraceNode}

/-- What an iteration comes to: the tracee is at the entry breakpoint and is sampled from here on,
or it is at the return breakpoint and the sample is complete, or it is at neither. -/
inductive Outcome (A : Arch R) (c : Target) (here : Addr) (r : Round R)
    (t v u : Session R TraceVars TraceNode) : Prop
  | enters (hw : t.vars.waitingForExit = false) (hhere : here = c.entryVaddr)
      (hvars : u.vars = exitArmedVars A c v.tracee.mem t.vars v.tracee.regs r.nowNs)
      (hres : u.results = t.results)
  | leaves (hw : t.vars.waitingForExit = true) (hhere : here = t.vars.retVaddr)
      (hvars : u.vars.waitingForExit = false)
      (hres : u.results = t.results ++ [node A c t.vars v.tracee.regs r.nowNs])
  | passes (hhere : here ≠ (planted c t.vars).1) (hvars : u.vars = t.vars)
      (hres : u.results = t.results)

/-- Every iteration has one of these outcomes. -/
theorem Iteration.outcome (h : Iteration A c deadline K ms r b t u) :
    Outcome A c (K.after ms).here r t ((t.resume r).reported b) u := by
  have hpost : Post ((traceCommand A).round c deadline r) t
      (fun e u => e = none → Outcome A c (K.after ms).here r t ((t.resume r).reported b) u)
      fun _ _ => True := by
    refine Command.post_round (fun _ h => by cases h) (fun h => by cases h) (fun h => by cases h)
      fun _ => Command.post_await (fun h => by cases h) (fun h => by cases h)
        (fun _ _ _ _ _ h => by cases h) (fun b' hb sig hsig cause hst hc _ => ?_)
        fun b' hb sig hsig cause hst hc => ?_
    · obtain rfl : b' = b := by simpa [h.does] using hb
      refine .passes (fun hhere => ?_) (by simp) (by simp)
      obtain ⟨⟨cause', hst', hc'⟩, -⟩ := h.traps.1 hhere
      rw [hst] at hst'
      cases hst'
      exact hc hc'
    · obtain rfl : b' = b := by simpa [h.does] using hb
      have hip := h.traps.trans (and_iff_right ⟨cause, hst, hc⟩)
      change Post (hit A c r) _ _ _
      rw [post_hit]
      simp only [Session.withFault_tracee, Session.withFault_vars, Session.reported_vars,
        Session.resume_vars]
      refine ⟨fun _ => ⟨fun hw => ?_, fun hw => ⟨fun hw' => ?_, fun hw' _ => ?_⟩⟩, fun _ => trivial⟩
      · rw [post_entryHit rfl]
        simp only [implies_true, and_true]
        intro _ _ _ _ _ _
        have hp : (planted c t.vars).1 = c.entryVaddr := by simp [planted, hw.1]
        exact .enters hw.1 (by rw [← hp, hip, hw.2, hp]) (by simp) (by simp)
      · rw [post_returnHit rfl]
        simp only [implies_true, and_true]
        intro _ _ _ _ _
        have hp : (planted c t.vars).1 = t.vars.retVaddr := by simp [planted, hw'.1]
        exact .leaves hw'.1 (by rw [← hp, hip, hw'.2, hp]) (by simp [entryArmedVars]) (by simp)
      · refine .passes (fun hhere => ?_) (by simp) (by simp)
        have hhit := hip.1 hhere
        cases hwait : t.vars.waitingForExit with
        | false => exact hw ⟨hwait, by simpa [planted, hwait] using hhit⟩
        | true => exact hw' ⟨hwait, by simpa [planted, hwait] using hhit⟩
  exact hpost.ok h.round rfl

/-- What the loop keeps of a sample that is not complete is what its entry stop found, and the
tracee has not been at the return address since. -/
structure Awaits (K : Calls Addr) (log : List (Move Addr)) (v : TraceVars) (e : Entry) : Prop where
  waiting : v.waitingForExit = true
  retVaddr : v.retVaddr = e.retVaddr
  ts : v.entryTs = e.ts
  pos_le : e.pos ≤ log.length
  before : ∀ i, e.pos ≤ i → i < log.length → (K.after (log.take i)).here ≠ e.retVaddr

/-- The bookkeeping of the loop, of a run up to here. -/
structure Tracks (A : Arch R) (c : Target) (K : Calls Addr) (log : List (Move Addr))
    (pending : Option Entry) (samples : List (Sample R)) (t : Session R TraceVars TraceNode) :
    Prop where
  results : t.results = samples.map (Sample.node A c)
  idle : pending = none → t.vars.waitingForExit = false
  awaits : ∀ e ∈ pending, Awaits K log t.vars e
  first : ∀ x ∈ samples, K.FirstAt log x.entry.pos x.entry.retVaddr x.pos

/-- Up to the end of an iteration the tracee does not get to the return address. -/
theorem Awaits.before_append {e : Entry} (h : Awaits K log t.vars e)
    (hi : Iteration A c deadline (K.after log) ms r b t u) :
    ∀ i, e.pos ≤ i → i < (log ++ ms).length →
      (K.after ((log ++ ms).take i)).here ≠ e.retVaddr := by
  have hplanted : (planted c t.vars).1 = e.retVaddr := by simp [planted, h.waiting, h.retVaddr]
  intro i hk hlt
  obtain hold | hnew := lt_or_ge i log.length
  · rw [Calls.after_take_append hold.le]
    exact h.before i hk hold
  · obtain ⟨j, rfl⟩ := Nat.exists_eq_add_of_le hnew
    rw [Calls.after_take_add, ← hplanted]
    exact hi.before j (by simpa using hlt)

/-- **The bookkeeping is right in every run.** -/
theorem Run.tracks {rounds : List (Round R)} {pending : Option Entry} {samples : List (Sample R)}
    (hs : s.vars.waitingForExit = false) (hres : s.results = [])
    (h : Run A c deadline K s rounds log pending samples t) :
    Tracks A c K log pending samples t := by
  induction h with
  | start => exact ⟨hres, fun _ => hs, by simp, by simp⟩
  | @enters rounds log samples t ms r b u _ hi hw ih =>
    cases hi.outcome with
    | enters _ _ hvars hu =>
      refine ⟨hu.trans ih.results, by simp, ?_, fun x hx => (ih.first x hx).append⟩
      rintro _ ⟨rfl⟩
      exact ⟨hw, rfl, rfl, le_rfl, fun i hk hlt => (hk.not_gt hlt).elim⟩
    | leaves hwait => rw [ih.idle rfl] at hwait; cases hwait
    | passes _ hvars => rw [hvars, ih.idle rfl] at hw; cases hw
  | @leaves rounds log samples t ms r b u e _ hi hw ih =>
    have he := ih.awaits e rfl
    cases hi.outcome with
    | enters hwait => rw [he.waiting] at hwait; cases hwait
    | leaves _ hhere _ hu =>
      refine ⟨?_, fun _ => hw, by simp, fun x hx => ?_⟩
      · rw [hu, ih.results, List.map_append, List.map_singleton, Sample.node, node, he.ts]
      · obtain hx | hx := List.mem_append.1 hx
        · exact (ih.first x hx).append
        · obtain rfl := List.mem_singleton.1 hx
          refine ⟨he.pos_le.trans (by simp), le_rfl, ?_, he.before_append hi⟩
          rw [List.take_length, Calls.after_append, hhere, he.retVaddr]
    | passes _ hvars => rw [hvars, he.waiting] at hw; cases hw
  | @passes rounds log pending samples t ms r b u _ hi hw ih =>
    cases hi.outcome with
    | enters hwait _ hvars hu =>
      have hpend : pending = none := by
        cases pending with
        | none => rfl
        | some e => rw [(ih.awaits e rfl).waiting] at hwait; cases hwait
      subst hpend
      rw [hvars] at hw
      cases hw
    | leaves hwait _ hvars hu =>
      cases pending with
      | none => rw [ih.idle rfl] at hwait; cases hwait
      | some e => rw [hvars] at hw; cases hw
    | passes _ hvars hu =>
      refine ⟨hu.trans ih.results, fun hn => hvars ▸ ih.idle hn, fun e he => ?_,
        fun x hx => (ih.first x hx).append⟩
      have ha := ih.awaits e he
      exact ⟨hvars ▸ ha.waiting, hvars ▸ ha.retVaddr, hvars ▸ ha.ts, ha.pos_le.trans (by simp),
        ha.before_append hi⟩

/-- The return that completes the sample is the return of the invocation whose entry started it. -/
def Sample.Own (K : Calls Addr) (log : List (Move Addr)) (x : Sample R) : Prop :=
  ∃ i serials, (K.after (log.take x.entry.pos)).arrived = .entered i ∧
    (K.after (log.take x.pos)).arrived = .left serials ∧ i ∈ serials

/-- A call has led to this stop, and from here on the tracee is at the return address for the first
time when the invocation returns. -/
def Entry.ReturnsFirst (K : Calls Addr) (log : List (Move Addr)) (e : Entry) : Prop :=
  ∃ i, (K.after (log.take e.pos)).arrived = .entered i ∧
    ∀ j, K.FirstAt log e.pos e.retVaddr j →
      ∃ serials, (K.after (log.take j)).arrived = .left serials ∧ i ∈ serials

theorem Tracks.own_iff {pending : Option Entry} {samples : List (Sample R)}
    (h : Tracks A c K log pending samples t) :
    (∀ x ∈ samples, x.Own K log) ↔ ∀ x ∈ samples, x.entry.ReturnsFirst K log := by
  refine forall₂_congr fun x hx => ⟨?_, ?_⟩
  · rintro ⟨i, serials, hin, hout, hi⟩
    refine ⟨i, hin, fun j hj => ⟨serials, ?_, hi⟩⟩
    rwa [hj.unique (h.first x hx)]
  · rintro ⟨i, hin, hfirst⟩
    obtain ⟨serials, hout, hi⟩ := hfirst _ (h.first x hx)
    exact ⟨i, serials, hin, hout, hi⟩

/-- The iterations of a run are the first of the loop. -/
theorem Run.loop {rounds post : List (Round R)} {pending : Option Entry}
    {samples : List (Sample R)} (h : Run A c deadline K s rounds log pending samples t) :
    (traceCommand A).loop c deadline (rounds ++ post) s =
      (traceCommand A).loop c deadline post t := by
  have hstep : ∀ {rounds : List (Round R)} {r : Round R} {t u : Session R TraceVars TraceNode}
      {post : List (Round R)}, (traceCommand A).round c deadline r t = .ok none u →
      (traceCommand A).loop c deadline (rounds ++ (r :: post)) s =
        (traceCommand A).loop c deadline (r :: post) t →
      (traceCommand A).loop c deadline (rounds ++ [r] ++ post) s =
        (traceCommand A).loop c deadline post u := by
    intro rounds r t u post hround ih
    rw [List.append_assoc, List.singleton_append, ih, Command.loop, bind_ok hround]
  induction h generalizing post with
  | start => rfl
  | enters _ hi _ ih => exact hstep hi.round ih
  | leaves _ hi _ ih => exact hstep hi.round ih
  | passes _ hi _ ih => exact hstep hi.round ih

/-- An iteration that leaves the loop records no sample. -/
theorem post_round_exit :
    Post ((traceCommand A).round c deadline r) t
      (fun e u => e ≠ none → u.results = t.results) fun _ _ => True := by
  refine Command.post_round (fun _ _ => rfl) (fun _ => rfl) (fun _ => rfl) fun _ =>
    Command.post_await (by simp) (by simp) (by simp) (fun _ _ _ _ _ _ _ h => (h rfl).elim)
      fun _ _ _ _ _ _ _ => ?_
  change Post (hit A c r) _ _ _
  rw [post_hit]
  refine ⟨fun _ => ⟨fun _ => ?_, fun _ => ⟨fun _ => ?_, fun _ h => (h rfl).elim⟩⟩, fun _ => trivial⟩
  · rw [post_entryHit rfl]
    simp
  · rw [post_returnHit rfl]
    simp

theorem post_finish_results {env : Script R} :
    Post ((traceCommand A).finish c env) t (fun l _ => l = t.results) fun _ _ => True := by
  suffices h : ∀ {u : Session R TraceVars TraceNode}, u.results = t.results →
      Post (cleanup c) u (fun _ v => v.results = t.results) fun _ _ => True by
    simp only [Command.finish, post_bind, post_modify, post_get, post_pure]
    exact h rfl
  intro u hu
  suffices h : Post (cleanup c) (u.put u.issued u.tracee.mem u.tracee.regs u.vars u.results)
      (fun _ v => v.results = t.results) fun _ _ => True from h
  simp [cleanup, post_restoreWord, post_ptraceDetach, hu]

end Trace

open Trace in
/-- **The samples of `trace()`.** The nodes it returns are of the entry and the return stops of its
loop, and the returns are those of the invocations entered in exactly the runs in which every
sampled invocation is the first to get the tracee to its return address. -/
theorem trace_own_iff {A : Arch R} {impl : Impl} {funcName : Text} {count timeoutMs deadline : ℤ}
    {env : Script R} {c : Target} {K : Calls Addr} {log : List (Move Addr)}
    {rounds post : List (Round R)} {pending : Option Entry} {samples : List (Sample R)}
    {l : List TraceNode} {s₀ s s₁ t u : Session R TraceVars TraceNode}
    (htrace : trace A impl funcName count timeoutMs env s₀ = .ok l u)
    (hprep : (traceCommand A).prepare impl funcName count timeoutMs env s₀ = .ok (c, deadline) s)
    (harm : (traceCommand A).arm c env s = .ok () s₁)
    (hrun : Run A c deadline K s₁ rounds log pending samples t)
    (hrounds : env.rounds = rounds ++ post)
    (hends : ∀ r ∈ post.head?, ∀ v, (traceCommand A).round c deadline r t ≠ .ok none v) :
    l = samples.map (Sample.node A c) ∧
      ((∀ x ∈ samples, x.Own K log) ↔ ∀ x ∈ samples, x.entry.ReturnsFirst K log) := by
  have harmed := Command.armed_of_arm harm
  have hstart : s₁.vars.waitingForExit = false ∧ s₁.results = [] :=
    ⟨by rw [harmed.vars]; rfl, harmed.results.trans (Command.prepared_of_prepare hprep).results⟩
  have htracks := hrun.tracks hstart.1 hstart.2
  refine ⟨?_, htracks.own_iff⟩
  rw [← htracks.results]
  obtain ⟨c', deadline', s', s₁', e, v, hprep', harm', hloop, hfinish⟩ :=
    Command.run_eq_ok htrace
  obtain ⟨⟨rfl, rfl⟩, rfl⟩ : (c = c' ∧ deadline = deadline') ∧ s = s' := by
    simpa using hprep.symm.trans hprep'
  obtain rfl : s₁ = s₁' := by simpa using harm.symm.trans harm'
  rw [hrounds, hrun.loop] at hloop
  rw [post_finish_results.ok hfinish]
  cases post with
  | nil =>
    have hnil : Post ((traceCommand A).loop c deadline []) t (fun _ v => v = t)
        fun _ _ => True := by
      simp only [Command.loop, post_bind, post_get, post_ite, post_pure, implies_true, and_self]
    rw [hnil.ok hloop]
  | cons r rest =>
    obtain ⟨o, w, hround, hrest⟩ := bind_eq_ok hloop
    cases o with
    | none => exact (hends r rfl w hround).elim
    | some e' =>
      cases (show EStateM.Result.ok e' w = .ok e v from hrest)
      exact post_round_exit.ok hround (by simp)

/-! ## A function that calls itself -/

namespace Trace.Recursive

/-- The tracee runs to the entry of the function. -/
def call : Round X86Regs := .polling [(0, .change (.trapAt 0x1000))]

/-- The tracee runs to the return address it found there. -/
def ret : Round X86Regs := .polling [(0, .change (.trapAt 0x2000))]

def env : Script X86Regs := .sampling [call, ret]

/-- The constants of the loop. -/
def target : Target :=
  ⟨"f".toList, 1, ⟨[⟨"f".toList, "f".toList, 0x1000, 16, [], "int".toList, false⟩]⟩, 0, 0x1000⟩

/-- The attach finds the tracee in the function, called once from where calls return to
`0x2000`. -/
def calls : Calls Addr := ⟨[⟨[0], 0x2000⟩], 1, 0x1008, .other, by decide⟩

/-- The session before the entry breakpoint is planted. -/
def prepared : Session X86Regs TraceVars TraceNode :=
  finalState ((traceCommand x86_64).prepare Impl.single "f".toList 1 1 env) (.single default)

/-- The session when the loop is entered. -/
def armed : Session X86Regs TraceVars TraceNode :=
  finalState ((traceCommand x86_64).arm target env) prepared

/-- The session after the entry hit. -/
def entered : Session X86Regs TraceVars TraceNode :=
  finalState ((traceCommand x86_64).round target 1000000 call) armed

/-- The session after the return hit. -/
def left : Session X86Regs TraceVars TraceNode :=
  finalState ((traceCommand x86_64).round target 1000000 ret) entered

/-- The sample of the run, when the tracee has made `n` moves up to the return hit. -/
def sample (n : ℕ) : Sample X86Regs :=
  ⟨⟨1, entered.vars.retVaddr, entered.vars.entryTs⟩, n, ret.nowNs,
    ((entered.resume ret).reported (.trapAt 0x2000)).tracee.regs⟩

/-- The function calls itself from the same place, and then the tracee makes moves that lead to the
return address. -/
theorem run {ms : List (Move Addr)}
    (hbefore : ∀ j < ms.length,
      ((calls.after [.call 0x1000 0x2000]).after (ms.take j)).here ≠ 0x2000)
    (hhere : ((calls.after [.call 0x1000 0x2000]).after ms).here = 0x2000) :
    Run x86_64 target 1000000 calls armed [call, ret] ([.call 0x1000 0x2000] ++ ms) none
      [sample (1 + ms.length)] left := by
  have hcall : Iteration x86_64 target 1000000 calls [.call 0x1000 0x2000] call
      (.trapAt 0x1000) armed entered :=
    ⟨rfl, rfl, by decide, iff_of_true rfl ⟨⟨.signal SIGTRAP, rfl, rfl⟩, rfl⟩⟩
  have hret : Iteration x86_64 target 1000000 (calls.after [.call 0x1000 0x2000]) ms ret
      (.trapAt 0x2000) entered left :=
    ⟨rfl, rfl, hbefore, iff_of_true hhere ⟨⟨.signal SIGTRAP, rfl, rfl⟩, rfl⟩⟩
  have hn : ([.call 0x1000 0x2000] ++ ms : List (Move Addr)).length = 1 + ms.length :=
    List.length_append
  rw [← hn]
  exact .leaves (.enters (.start (K := calls)) hcall rfl) hret rfl

end Trace.Recursive

open Trace.Recursive in
/-- The call that is sampled returns. -/
theorem trace_own_iff_ret : [(sample 2).node x86_64 target] =
      [sample 2].map (Trace.Sample.node x86_64 target) ∧
    ((∀ x ∈ [sample 2], x.Own calls [.call 0x1000 0x2000, .ret]) ↔
      ∀ x ∈ [sample 2], x.entry.ReturnsFirst calls [.call 0x1000 0x2000, .ret]) := by
  have htrace : trace x86_64 Impl.single "f".toList 1 1 env (.single default) =
      .ok [(sample 2).node x86_64 target]
        (finalState (trace x86_64 Impl.single "f".toList 1 1 env) (.single default)) := by rfl
  have hrun : Trace.Run x86_64 target 1000000 calls armed [call, ret] [.call 0x1000 0x2000, .ret]
      none [sample 2] left :=
    run (by decide) rfl
  have hrounds : env.rounds = [call, ret] ++ [] := rfl
  exact trace_own_iff htrace rfl rfl hrun hrounds (by simp)

open Trace.Recursive in
/-- The call that is sampled calls the function once more from the same place, and the return of
that call is taken for its own. -/
theorem trace_takes_inner_return :
    trace x86_64 Impl.single "f".toList 1 1 env (.single default) =
      .ok [(sample 3).node x86_64 target]
        (finalState (trace x86_64 Impl.single "f".toList 1 1 env) (.single default)) ∧
    Trace.Run x86_64 target 1000000 calls armed env.rounds
      [.call 0x1000 0x2000, .call 0x1000 0x2000, .ret] none [sample 3] left ∧
    ¬ (sample 3).Own calls [.call 0x1000 0x2000, .call 0x1000 0x2000, .ret] := by
  have hbefore : ∀ j < 2, ((calls.after [.call 0x1000 0x2000]).after
      ([.call 0x1000 0x2000, .ret].take j)).here ≠ 0x2000 := by decide
  refine ⟨by rfl, run hbefore rfl, ?_⟩
  rintro ⟨i, serials, hin, hout, hi⟩
  cases (show Arrival.entered 1 = .entered i from hin)
  cases (show Arrival.left [2] = .left serials from hout)
  simp at hi

end Uatu
