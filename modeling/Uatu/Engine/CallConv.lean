import Uatu.Engine.Stack
import Uatu.Engine.Trace

/-!
# Calling conventions

`trace()` and `stack()` take the word at the top of the stack for the return address, and the walk
of `stack()` takes a frame pointer to point to the saved one, with the return address next to it.
That is the convention of x86_64. On aarch64 and riscv64 the return address is in a register at the
entry of a function, and on riscv64 the frame record lies below the frame pointer: `Meets` says
that the engine finds what the convention has stored, and `callConv_iff` when it does.
-/

namespace Uatu

open ByteMemory Throwing

variable {R V ν : Type}

/-! ## The conventions -/

/-- A calling convention with frame pointers. -/
structure Convention (R : Type) where
  /-- At the first instruction of a function, the address that the call returns to. -/
  returnAddress : R → Mem → Addr
  /-- Where the frame of a frame pointer keeps the frame pointer of the caller. -/
  savedFp : Addr → Addr
  /-- Where it keeps its return address. -/
  savedRet : Addr → Addr

def x86_64.convention : Convention X86Regs where
  returnAddress r m := readWord m r.rsp
  savedFp fp := fp
  savedRet fp := fp + 8

/-- The link register is `x30`. -/
def aarch64.convention : Convention Aarch64Regs where
  returnAddress r _ := r.regs 30
  savedFp fp := fp
  savedRet fp := fp + 8

/-- The frame pointer is the stack pointer of the caller. -/
def riscv64.convention : Convention Riscv64Regs where
  returnAddress r _ := r.ra
  savedFp fp := fp - 16
  savedRet fp := fp - 8

/-! ## What the walk reads -/

namespace Stack

/-- A frame that the walk comes to: two requests are made for it, from this number on. -/
structure Visit where
  fp : Addr
  request : ℕ

/-- Where the walk reads the frame pointer of the caller. -/
def Visit.savedFp (x : Visit) : Addr := x.fp

/-- Where it reads the return address. -/
def Visit.savedRet (x : Visit) : Addr := x.fp + 8

/-- The walk goes on to the frame of the caller. -/
def Visit.GoesOn (s : Session R V ν) (m : Mem) (x : Visit) : Prop :=
  s.answersAt x.request (.peek x.savedFp) ∧ s.answersAt (x.request + 1) (.peek x.savedRet) ∧
    readWord m x.savedRet ≠ 0 ∧ x.fp < readWord m x.savedFp

instance (s : Session R V ν) (m : Mem) (x : Visit) : Decidable (x.GoesOn s m) :=
  inferInstanceAs (Decidable (_ ∧ _))

/-- The frames that the walk comes to. -/
def visits (s : Session R V ν) (m : Mem) : ℕ → ℕ → Addr → List Visit
  | 0, _, _ => []
  | n + 1, k, fp =>
    if fp ≠ 0 ∧ fp.toNat % 8 = 0 then
      ⟨fp, k⟩ ::
        if (Visit.mk fp k).GoesOn s m then visits s m n (k + 2) (readWord m fp) else []
    else []

/-- The name it puts down for a frame, if it can read a return address. -/
def Visit.frame (c : Target) (s : Session R V ν) (m : Mem) (x : Visit) : Option Text :=
  if s.answersAt (x.request + 1) (.peek x.savedRet) ∧ readWord m x.savedRet ≠ 0 then
    some (symFor c (readWord m x.savedRet))
  else none

variable {A : Arch R} {c : Target} {m : Mem} {regs r : R} {v : V} {l : List ν}
  {s : Session R V ν} {E : Exception → Session R V ν → Prop} {n k : ℕ} {fp : Addr}

/-- Where it stops, and what it has put down. -/
theorem visits_stop (hfp : fp ≠ 0 ∧ fp.toNat % 8 = 0) (h : ¬ (Visit.mk fp k).GoesOn s m) :
    visits s m (n + 1) k fp = [⟨fp, k⟩] := by
  rw [visits, if_pos hfp, if_neg h]

theorem visits_goesOn (hfp : fp ≠ 0 ∧ fp.toNat % 8 = 0) (h : (Visit.mk fp k).GoesOn s m) :
    visits s m (n + 1) k fp = ⟨fp, k⟩ :: visits s m n (k + 2) (readWord m fp) := by
  rw [visits, if_pos hfp, if_pos h]

/-- **The walk puts down the frames that it comes to**, making two requests for each. -/
theorem post_walk_visits : Post (walk c n fp) (s.put k m r v l)
    (fun fs t => fs = (visits s m n k fp).filterMap (Visit.frame c s m) ∧
      t = s.put (k + 2 * (visits s m n k fp).length) m r v l) E := by
  induction n generalizing k fp with
  | zero => exact ⟨rfl, rfl⟩
  | succ n ih =>
    by_cases hfp : fp ≠ 0 ∧ fp.toNat % 8 = 0
    · have hstop : ∀ fs, ¬ (Visit.mk fp k).GoesOn s m →
          fs = ((Visit.mk fp k).frame c s m).toList →
          fs = (visits s m (n + 1) k fp).filterMap (Visit.frame c s m) ∧
          s.put (k + 1 + 1) m r v l =
            s.put (k + 2 * (visits s m (n + 1) k fp).length) m r v l := by
        intro fs hnot hfs
        rw [visits_stop hfp hnot, hfs]
        exact ⟨by cases h : (Visit.mk fp k).frame c s m <;> simp [h], rfl⟩
      rw [walk, if_pos hfp]
      simp only [post_bind, post_peekWord, post_ite, post_pure, Session.put_tick]
      have hnone : ¬ s.answersAt (k + 1) (.peek (fp + 8)) →
          (Visit.mk fp k).frame c s m = none := fun hret => if_neg fun h => hret h.1
      refine ⟨fun hsaved => ⟨fun hret => ?_, fun hret => ?_⟩,
        fun hsaved => ⟨fun hret => ?_, fun hret => ?_⟩⟩
      · refine ⟨fun hzero => hstop _ (fun h => h.2.2.1 hzero) ?_, fun hzero => ?_⟩
        · rw [Visit.frame, if_neg fun h => h.2 hzero]
          rfl
        · have hframe : (Visit.mk fp k).frame c s m = some (symFor c (readWord m (fp + 8))) :=
            if_pos ⟨hret, hzero⟩
          refine ⟨fun hend => hstop _ (fun h => ?_) (by rw [hframe]; rfl), fun hend => ?_⟩
          · have hend : readWord m fp = 0 ∨ readWord m fp ≤ fp := hend
            have hup : fp < readWord m fp := h.2.2.2
            obtain hend | hend := hend
            · rw [hend] at hup
              bv_omega
            · bv_omega
          · have hup : fp < readWord m fp := BitVec.not_le.1 fun h => hend (.inr h)
            have hgoes : (Visit.mk fp k).GoesOn s m := ⟨hsaved, hret, hzero, hup⟩
            rw [visits_goesOn hfp hgoes]
            refine ih.mono (fun fs t h => ?_) fun _ _ h => h
            rw [h.1, h.2, List.filterMap_cons, hframe]
            refine ⟨rfl, ?_⟩
            change s.put (k + 2 + 2 * (visits s m n (k + 2) (readWord m fp)).length) m r v l = _
            rw [List.length_cons, Nat.mul_succ, Nat.add_assoc k 2, Nat.add_comm 2]
      · exact hstop _ (fun h => hret h.2.1) (by rw [hnone hret]; rfl)
      · refine ⟨fun hzero => hstop _ (fun h => hsaved h.1) ?_,
          fun hzero => hstop _ (fun h => hsaved h.1) ?_⟩
        · rw [Visit.frame, if_neg fun h => h.2 hzero]
          rfl
        · rw [Visit.frame, if_pos ⟨hret, hzero⟩]
          rfl
      · exact hstop _ (fun h => hret h.2.1) (by rw [hnone hret]; rfl)
    · rw [walk, if_neg hfp, visits, if_neg hfp]
      exact ⟨rfl, rfl⟩

/-- The frames of a sample: the function, its caller and what the walk comes to. -/
theorem post_frames_visits : Post (frames A c regs) s
    (fun fs _ => fs = c.funcName :: if s.answers (.peek (A.getSp regs)) then
        symFor c (readWord s.tracee.mem (A.getSp regs)) ::
          (visits s s.tracee.mem 14 (s.issued + 1) (A.getFp regs)).filterMap
            (Visit.frame c s s.tracee.mem)
      else []) E := by
  simp only [frames, post_bind, post_peekWord, post_pure]
  refine ⟨fun hsp => ?_, fun hsp => by rw [if_neg hsp]⟩
  rw [if_pos hsp]
  change Post (walk c 14 (A.getFp regs))
    (s.put (s.issued + 1) s.tracee.mem s.tracee.regs s.vars s.results) _ E
  exact post_walk_visits.mono (fun fs t h => by rw [h.1]) fun _ _ h => h

/-- The return address that a sampled call is expected at. -/
theorem post_entryHit_retVaddr {round : Round R} {s : Session R StackVars StackEvent}
    (hs : s.vars.waitingForExit = false) : Post (entryHit A c round regs) s
      (fun e t => e = none → t.vars.waitingForExit = true →
        t.vars.retVaddr = entryRet A c s.tracee.mem s.vars regs) fun _ _ => True := by
  refine post_entryHit ?_
  constructor
  case count => exact fun _ _ _ h => nomatch h
  case exitArmed => exact fun _ _ _ _ _ _ _ => rfl
  case rearmed =>
    intro _ _ _ _ hwaiting
    cases hs.symm.trans hwaiting
  all_goals intros; trivial

end Stack

/-- The return address that a sampled call is expected at. -/
theorem Trace.post_entryHit_retVaddr {A : Arch R} {c : Target} {r : Round R} {regs : R}
    {s : Session R TraceVars TraceNode} : Post (entryHit A c r regs) s
      (fun _ t => t.vars.retVaddr = entryRet A c s.tracee.mem s.vars regs) fun _ _ => True := by
  rw [post_entryHit rfl]
  simp [exitArmedVars]

/-! ## The engine and the conventions -/

/-- At an entry hit with these registers and, once the breakpoint is taken out, this memory, the
engine finds what the convention has stored. -/
structure Convention.Meets (conv : Convention R) (A : Arch R) (regs : R) (m : Mem) : Prop where
  trace : ∀ {c : Target} {r : Round R} {s t : Session R TraceVars TraceNode},
    Trace.entryMem c s.tracee.mem s.vars = m → Trace.entryHit A c r regs s = .ok () t →
    t.vars.retVaddr = conv.returnAddress regs m
  stack : ∀ {c : Target} {r : Round R} {s t : Session R StackVars StackEvent},
    Stack.entryMem c s.tracee.mem s.vars = m → s.vars.waitingForExit = false →
    Stack.entryHit A c r regs s = .ok none t → t.vars.waitingForExit = true →
    t.vars.retVaddr = conv.returnAddress regs m
  frames : ∀ {c : Target} {s t : Session R StackVars StackEvent} {fs : List Text},
    s.tracee.mem = m → Stack.frames A c regs s = .ok fs t →
    fs = c.funcName :: if s.answers (.peek (A.getSp regs)) then
        Stack.symFor c (conv.returnAddress regs m) ::
          (Stack.visits s m 14 (s.issued + 1) (A.getFp regs)).filterMap (Stack.Visit.frame c s m)
      else []
  records : ∀ (s : Session R StackVars StackEvent) (k : ℕ),
    ∀ x ∈ Stack.visits s m 14 k (A.getFp regs),
      x.savedFp = conv.savedFp x.fp ∧ x.savedRet = conv.savedRet x.fp

/-- A tracee that has stopped at a breakpoint. -/
def Session.stoppedAt (m : Mem) (regs : R) (v : V) : Session R V ν where
  tracee := ⟨m, regs, .stopped (.signal SIGTRAP), true, false, [], []⟩
  fault := Fault.none
  issued := 0
  needCont := true
  results := []
  vars := v

namespace Convention

variable {conv : Convention R} {A : Arch R} {regs : R} {m : Mem}

/-- **What `trace()` takes for the return address** is the word at the top of the stack. -/
theorem exists_entryHit (A : Arch R) (regs : R) (m : Mem) :
    ∃ (c : Target) (r : Round R) (s t : Session R TraceVars TraceNode),
      Trace.entryMem c s.tracee.mem s.vars = m ∧ Trace.entryHit A c r regs s = .ok () t ∧
        t.vars.retVaddr = readWord m (A.getSp regs) := by
  let c : Target := ⟨[], 1, ⟨[]⟩, 0, 0⟩
  let s : Session R TraceVars TraceNode :=
    .stoppedAt m regs { (default : TraceVars) with origEntry := readWord m 0 }
  have hmem : Trace.entryMem c s.tracee.mem s.vars = m := writeWord_readWord m 0
  have hanswers : ∀ k q, s.answersAt k q := fun k q => answersAt_of_none rfl rfl k q
  have hpost : Post (Trace.entryHit A c (.polling []) regs) s
      (fun _ t => t.vars.retVaddr = readWord m (A.getSp regs)) fun _ _ => False := by
    rw [Trace.post_entryHit rfl]
    simp [hanswers, Trace.exitArmedVars, Trace.entryRet, hmem]
  obtain ⟨⟨⟩, t, hok, hret⟩ := hpost.exists_ok
  exact ⟨c, .polling [], s, t, hmem, hok, hret⟩

/-- The engine meets a convention if it is told the right return address by the top of the stack,
and the frame records are where it reads them. -/
theorem meets_iff : conv.Meets A regs m ↔
    readWord m (A.getSp regs) = conv.returnAddress regs m ∧
    ∀ (s : Session R StackVars StackEvent) (k : ℕ), ∀ x ∈ Stack.visits s m 14 k (A.getFp regs),
      x.savedFp = conv.savedFp x.fp ∧ x.savedRet = conv.savedRet x.fp := by
  constructor
  · intro h
    obtain ⟨c, r, s, t, hmem, hok, hret⟩ := exists_entryHit A regs m
    exact ⟨hret.symm.trans (h.trace hmem hok), h.records⟩
  · rintro ⟨hsp, hrecords⟩
    refine ⟨?_, ?_, ?_, hrecords⟩
    · rintro c r s t rfl hok
      exact (Trace.post_entryHit_retVaddr.ok hok).trans hsp
    · rintro c r s t rfl hs hok hwaiting
      exact ((Stack.post_entryHit_retVaddr hs).ok hok rfl hwaiting).trans hsp
    · rintro c s t fs rfl hok
      rw [← hsp]
      exact (Stack.post_frames_visits (E := fun _ _ => True)).ok hok

end Convention

/-- **The engine meets the convention** of x86_64 in every state. On aarch64 it does in those in
which the word at the top of the stack happens to be the link register; on riscv64, if besides no
frame is walked. -/
theorem callConv_iff (m : Mem) (rx : X86Regs) (ra : Aarch64Regs) (rr : Riscv64Regs) :
    x86_64.convention.Meets x86_64 rx m ∧
    (aarch64.convention.Meets aarch64 ra m ↔ readWord m ra.sp = ra.regs 30) ∧
    (riscv64.convention.Meets riscv64 rr m ↔
      readWord m rr.sp = rr.ra ∧ (rr.s0 = 0 ∨ rr.s0.toNat % 8 ≠ 0)) := by
  refine ⟨?_, ?_, ?_⟩
  · exact Convention.meets_iff.2 ⟨rfl, fun _ _ _ _ => ⟨rfl, rfl⟩⟩
  · rw [Convention.meets_iff]
    exact and_iff_left fun _ _ _ _ => ⟨rfl, rfl⟩
  · rw [Convention.meets_iff]
    refine and_congr Iff.rfl ⟨fun h => ?_, fun h s k x hx => ?_⟩
    · by_contra hfp
      rw [not_or, not_not] at hfp
      have hwalked : ∀ s : Session Riscv64Regs StackVars StackEvent,
          ⟨rr.s0, 0⟩ ∈ Stack.visits s m 14 0 rr.s0 := by
        intro s
        rw [Stack.visits, if_pos hfp]
        exact List.mem_cons_self ..
      obtain ⟨hsaved, -⟩ := h (.stoppedAt m rr default) 0 ⟨rr.s0, 0⟩ (hwalked _)
      have hne : rr.s0 ≠ rr.s0 - 16 := by bv_omega
      exact hne hsaved
    · have hx : x ∈ Stack.visits s m 14 k rr.s0 := hx
      rw [Stack.visits, if_neg fun hfp => h.elim hfp.1 fun hmod => hmod hfp.2] at hx
      exact absurd hx List.not_mem_nil

/-- A call on aarch64 from `0x2000`, with another word at the top of the stack. -/
def Aarch64Regs.called : Aarch64Regs := ⟨fun i => if i = 30 then 0x2000 else 0, 0x3000, 0x1000, 0⟩

/-- A call on riscv64 from `0x2000`, which is also at the top of the stack, with a frame. -/
def Riscv64Regs.called : Riscv64Regs := ⟨0x1000, 0x2000, 0x3000, 0x4000, 0, fun _ => 0⟩

theorem callConv_unmet :
    ¬ aarch64.convention.Meets aarch64 .called (fun _ => 0) ∧
      ¬ riscv64.convention.Meets riscv64 .called Mem.single := by
  rw [Convention.meets_iff, Convention.meets_iff]
  refine ⟨fun h => absurd h.1 (by decide), fun h => ?_⟩
  obtain ⟨hsaved, -⟩ := h.2 (.stoppedAt Mem.single .called default) 0 ⟨0x4000, 0⟩
    (List.mem_cons_self ..)
  exact absurd hsaved (by decide)

end Uatu
