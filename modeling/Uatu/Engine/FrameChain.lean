import Uatu.Engine.CallConv

/-!
# The frames of a sample

The walk of `stack()` follows the saved frame pointers. `FrameChain` is a chain of frames as
functions that keep them leave it: the walk puts down the return addresses of its first fourteen
frames, whatever its length (`entryHit_frames`). In any other memory it still goes upwards only,
from one aligned frame to the next (`visits_increasing`).
-/

namespace Uatu

open ByteMemory Throwing

variable {R V ν : Type}

namespace Stack

/-- A frame pointer heads these frames: each is aligned and below those after it, points to the
next, the last one to `0`, and has a return address next to it. -/
def FrameChain (m : Mem) : Addr → List Addr → Prop
  | fp, [] => fp = 0
  | fp, f :: fs => fp = f ∧ f ≠ 0 ∧ f.toNat % 8 = 0 ∧ readWord m (f + 8) ≠ 0 ∧
      (∀ g ∈ fs, f < g) ∧ FrameChain m (readWord m f) fs

/-- The word at this address can be read. -/
def Readable (s : Session R V ν) (addr : Addr) : Prop := ∀ k, s.answersAt k (.peek addr)

/-- What the walk puts down for a frame whose return address it can read. -/
def frameName (c : Target) (m : Mem) (f : Addr) : Text := symFor c (readWord m (f + 8))

variable {A : Arch R} {c : Target} {m : Mem} {s : Session R V ν} {n k : ℕ} {fp : Addr}

/-! ## Any memory -/

theorem visits_le {x : Visit} (hx : x ∈ visits s m n k fp) : fp ≤ x.fp := by
  induction n generalizing k fp with
  | zero => cases hx
  | succ n ih =>
    rw [visits] at hx
    split_ifs at hx with hfp hgoes
    · rcases List.mem_cons.1 hx with rfl | hx
      · exact BitVec.le_refl _
      · have hup : fp < readWord m fp := hgoes.2.2.2
        have hle := ih hx
        bv_omega
    · rw [List.mem_singleton.1 hx]
      exact BitVec.le_refl _
    · cases hx

theorem visits_aligned {x : Visit} (hx : x ∈ visits s m n k fp) : x.fp.toNat % 8 = 0 := by
  induction n generalizing k fp with
  | zero => cases hx
  | succ n ih =>
    rw [visits] at hx
    split_ifs at hx with hfp hgoes
    · rcases List.mem_cons.1 hx with rfl | hx
      · exact hfp.2
      · exact ih hx
    · rw [List.mem_singleton.1 hx]
      exact hfp.2
    · cases hx

/-- The walk goes upwards. -/
theorem visits_increasing : ((visits s m n k fp).map Visit.fp).Pairwise (· < ·) := by
  induction n generalizing k fp with
  | zero => exact List.Pairwise.nil
  | succ n ih =>
    rw [visits]
    split_ifs with hfp hgoes
    · rw [List.map_cons, List.pairwise_cons]
      refine ⟨?_, ih⟩
      rintro f hf
      obtain ⟨x, hx, rfl⟩ := List.mem_map.1 hf
      have hup : fp < readWord m fp := hgoes.2.2.2
      have hle := visits_le hx
      bv_omega
    · exact List.pairwise_singleton ..
    · exact List.Pairwise.nil

/-! ## A chain of frames -/

/-- Along a chain that can be read, the walk puts down every frame up to its bound. -/
theorem visits_chain {fs : List Addr} (h : FrameChain m fp fs)
    (hread : ∀ f ∈ fs, Readable s f ∧ Readable s (f + 8)) :
    (visits s m n k fp).filterMap (Visit.frame c s m) = (fs.take n).map (frameName c m) := by
  induction n generalizing k fp fs with
  | zero => rfl
  | succ n ih =>
    cases fs with
    | nil =>
      obtain rfl : fp = 0 := h
      rfl
    | cons f fs =>
      obtain ⟨rfl, hne, hmod, hret, hlt, hrest⟩ := h
      obtain ⟨hsaved, hread8⟩ := hread fp (List.mem_cons_self ..)
      have hframe : (Visit.mk fp k).frame c s m = some (frameName c m fp) :=
        if_pos ⟨hread8 _, hret⟩
      cases fs with
      | nil =>
        -- the last frame is put down before its saved frame pointer ends the walk
        have hstop : ¬ (Visit.mk fp k).GoesOn s m := by
          rintro ⟨-, -, -, hup⟩
          rw [Visit.savedFp, show readWord m fp = 0 from hrest] at hup
          bv_omega
        rw [visits_stop ⟨hne, hmod⟩ hstop, List.filterMap_cons, hframe, List.take_succ_cons,
          List.take_nil]
        rfl
      | cons g fs =>
        have hnext : readWord m fp = g := hrest.1
        have hgoes : (Visit.mk fp k).GoesOn s m := by
          refine ⟨hsaved _, hread8 _, hret, ?_⟩
          rw [Visit.savedFp, hnext]
          exact hlt g (List.mem_cons_self ..)
        rw [visits_goesOn ⟨hne, hmod⟩ hgoes, List.filterMap_cons, hframe,
          ih hrest fun f hf => hread f (List.mem_cons_of_mem _ hf)]
        rfl

/-! ## What a sample records -/

/-- The frames of a sample in this memory, where the word at the top of the stack is read by this
request. -/
def sampleFrames (A : Arch R) (c : Target) (s : Session R V ν) (m : Mem) (k : ℕ) (regs : R) :
    List Text :=
  c.funcName :: if s.answersAt k (.peek (A.getSp regs)) then
    symFor c (readWord m (A.getSp regs)) ::
      (visits s m 14 (k + 1) (A.getFp regs)).filterMap (Visit.frame c s m)
  else []

theorem sampleFrames_setIp {regs : R} {v : Addr} :
    sampleFrames A c s m k (A.setIp regs v) = sampleFrames A c s m k regs := by
  rw [sampleFrames, sampleFrames, Arch.getSp_setIp, Arch.getFp_setIp]

theorem post_frames_put {regs r : R} {v : V} {l : List ν}
    {Q : List Text → Session R V ν → Prop} {E : Exception → Session R V ν → Prop}
    (h : ∀ j, Q (sampleFrames A c s m k regs) (s.put j m r v l)) :
    Post (frames A c regs) (s.put k m r v l) Q E := by
  simp only [frames, post_bind, post_peekWord, post_pure, Session.put_tick]
  refine ⟨fun hsp => ?_, fun hsp => ?_⟩
  · refine post_walk_visits.mono (fun fs t hwalk => ?_) fun _ _ h => h
    rw [sampleFrames, if_pos (show s.answersAt k _ from hsp)] at h
    rw [hwalk.1, hwalk.2]
    exact h _
  · rw [sampleFrames, if_neg (show ¬ s.answersAt k _ from hsp)] at h
    exact h _

/-- An entry hit that is handled records one sample, with the frames that are read once the
breakpoint is taken out. -/
theorem post_entryHit_frames {round : Round R} {regs : R}
    {s : Session R StackVars StackEvent} : Post (entryHit A c round regs) s
      (fun _ t => ∃ ev, t.results = s.results ++ [ev] ∧ ev.funcName = c.funcName ∧
        ev.frames = sampleFrames A c s (entryMem c s.tracee.mem s.vars) (s.issued + 2) regs)
      fun _ _ => True := by
  have hs := s.put_self
  rw [← hs]
  simp only [entryHit, post_bind, post_modify, post_get, post_restoreWord, post_setRegs,
    Session.put_answers, Session.put_tick, Session.put_setMem, Session.put_setRegs,
    Session.put_setVars, Session.put_vars, Session.put_tracee]
  refine ⟨fun _ => ⟨fun _ => post_frames_put fun j => ?_, fun _ => trivial⟩, fun _ => trivial⟩
  -- whatever follows, the sample stays
  rw [post_ite]
  simp only [post_bind, post_pure, post_peekWord, post_insertBreakpoint, post_modify,
    Session.put_answers, Session.put_tick, Session.put_setMem, Session.put_setVars,
    Session.put_vars, Session.put_tracee, Session.put_push, Session.put_results]
  have hsample : ∀ {ev : StackEvent}, ev.funcName = c.funcName →
      ev.frames = sampleFrames A c s (entryMem c s.tracee.mem s.vars) (s.issued + 2)
        (A.setIp regs c.entryVaddr) →
      ∃ ev', s.results ++ [ev] = s.results ++ [ev'] ∧ ev'.funcName = c.funcName ∧
        ev'.frames = sampleFrames A c s (entryMem c s.tracee.mem s.vars) (s.issued + 2) regs :=
    fun hname hframes => ⟨_, rfl, hname, hframes.trans sampleFrames_setIp⟩
  refine ⟨fun _ => hsample rfl rfl, fun _ => ⟨fun _ => ?_, fun _ => ?_⟩⟩
  · exact ⟨fun _ => ⟨fun _ => hsample rfl rfl, fun _ => trivial⟩, fun _ => trivial⟩
  · exact ⟨fun _ => ⟨fun _ => hsample rfl rfl, fun _ => trivial⟩, fun _ => trivial⟩

/-- **The frames that `stack()` records** on x86_64. At the entry of a function whose return
address is at the top of the stack and whose frame pointer heads a chain of frames, they are the
function, its caller and the return addresses of the first fourteen frames in order. In any memory
they are those of the frames visited, and the walk visits aligned frames upwards. -/
theorem entryHit_frames {round : Round X86Regs} {regs : X86Regs}
    {s t : Session X86Regs StackVars StackEvent} {e : Option LoopExit} {m : Mem}
    (hm : entryMem c s.tracee.mem s.vars = m)
    (h : entryHit x86_64 c round regs s = .ok e t) :
    ∃ ev, t.results = s.results ++ [ev] ∧
      (∀ fs, FrameChain m regs.rbp fs → Readable s regs.rsp →
        (∀ f ∈ fs, Readable s f ∧ Readable s (f + 8)) →
        ev.frames = c.funcName :: symFor c (readWord m regs.rsp) ::
          (fs.take 14).map (frameName c m)) ∧
      ev.frames = sampleFrames x86_64 c s m (s.issued + 2) regs ∧
      (∀ x ∈ visits s m 14 (s.issued + 3) regs.rbp, x.fp.toNat % 8 = 0) ∧
      ((visits s m 14 (s.issued + 3) regs.rbp).map Visit.fp).Pairwise (· < ·) := by
  obtain ⟨ev, hresults, -, hframes⟩ := post_entryHit_frames.ok h
  subst hm
  refine ⟨ev, hresults, fun fs hchain hsp hread => ?_, hframes, fun x hx => visits_aligned hx,
    visits_increasing⟩
  rw [hframes, sampleFrames]
  change c.funcName :: (if s.answersAt (s.issued + 2) (.peek regs.rsp) then _ else _) = _
  rw [if_pos (hsp _)]
  exact congrArg _ (congrArg _ (visits_chain hchain hread))

end Stack

/-- Two frames, and a return address at the top of the stack. -/
def Mem.twoFrames : Mem := fun a =>
  if a = 0x3001 then 0x11 else if a = 0x4000 then 0x10 else if a = 0x4001 then 0x40
  else if a = 0x4009 then 0x12 else if a = 0x4019 then 0x13 else 0

/-- The registers at the entry of a function called from there. -/
def X86Regs.twoFrames : X86Regs := ⟨0x1001, 0x3000, 0x4000, 0, fun _ => 0⟩

/-- No function has debug information. -/
def Target.bare : Target := ⟨"f".toList, 1, ⟨[]⟩, 0, 0x1000⟩

theorem Stack.frameChain_twoFrames :
    Stack.FrameChain .twoFrames 0x4000 [0x4000, 0x4010] := by
  have hnext : readWord Mem.twoFrames 0x4000 = 0x4010 := by decide +kernel
  have hlast : readWord Mem.twoFrames 0x4010 = 0 := by decide +kernel
  refine ⟨rfl, by decide, by decide, by decide +kernel, by simp, ?_⟩
  rw [hnext]
  exact ⟨rfl, by decide, by decide, by decide +kernel, by simp, hlast⟩

theorem Stack.entryHit_frames_twoFrames :
    ∃ (s t : Session X86Regs StackVars StackEvent) (e : Option LoopExit) (ev : StackEvent),
      Stack.entryHit x86_64 .bare (.polling []) .twoFrames s = .ok e t ∧ t.results = [ev] ∧
      ev.frames = ["f".toList, "0x0000000000001100".toList, "0x0000000000001200".toList,
        "0x0000000000001300".toList] := by
  let s : Session X86Regs StackVars StackEvent :=
    .stoppedAt .twoFrames .twoFrames { (default : StackVars) with entryArmed := true }
  have hmem : Stack.entryMem .bare s.tracee.mem s.vars = .twoFrames :=
    writeWord_readWord Mem.twoFrames 0x1000
  have hread : ∀ addr, Stack.Readable s addr := fun addr k => rfl
  have hpost : Post (Stack.entryHit x86_64 .bare (.polling []) .twoFrames) s
      (fun _ _ => True) fun _ _ => False := by
    apply Stack.post_entryHit
    constructor <;> intros
    all_goals first
      | exact trivial
      | contradiction
  obtain ⟨e, t, hok, -⟩ := hpost.exists_ok
  obtain ⟨ev, hresults, hchain, -⟩ := Stack.entryHit_frames hmem hok
  refine ⟨s, t, e, ev, hok, hresults, ?_⟩
  rw [hchain _ Stack.frameChain_twoFrames (hread _) fun f _ => ⟨hread f, hread _⟩]
  decide +kernel

end Uatu
