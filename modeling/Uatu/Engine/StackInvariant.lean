import Uatu.Engine.Loop
import Uatu.Engine.Stack

/-!
# The bookkeeping of `stack()`

`Stack.Holds` says of one byte that the tracee itself never writes that memory, flags and saved
words agree about it while the loop of `stack()` is between two stops. Inside the handling of a
stop the flags and the words are updated one by one between requests that may throw; what is right
at each of these points is the weaker `Stack.Guarded`, which is all that the guard needs.
-/

namespace Uatu

open ByteMemory Throwing

variable {R : Type} (A : Arch R) (c : Target)

namespace Stack

/-- The planted breakpoint, if there is one: its address, and the word it was planted over. -/
def planted (v : StackVars) : Option (Addr × Word) :=
  if v.waitingForExit then some (v.retVaddr, v.origRet)
  else if v.entryArmed then some (c.entryVaddr, v.origEntry)
  else none

/-- The bookkeeping of the loop is right about the byte at `x`, which was `o` before the attach. -/
structure Holds (x : Addr) (o : BitVec 8) (m : Mem) (v : StackVars) : Prop where
  mem : m x = match planted c v with
    | some p => shown A.makePatchedWord p x o
    | none => o
  entry : Saves c.entryVaddr v.origEntry x o
  ret : v.waitingForExit = true → Saves v.retVaddr v.origRet x o
  one : v.waitingForExit = true → v.entryArmed = false

/-- The words the flags stand for have the byte at `x` as it was before the attach, and a byte
outside of them is as it was. -/
structure Guarded (x : Addr) (o : BitVec 8) (m : Mem) (v : StackVars) : Prop where
  mem : ¬ (v.waitingForExit = true ∧ InWord v.retVaddr x) →
    ¬ (v.entryArmed = true ∧ InWord c.entryVaddr x) → m x = o
  entry : v.entryArmed = true → Saves c.entryVaddr v.origEntry x o
  ret : v.waitingForExit = true → Saves v.retVaddr v.origRet x o

variable {A c} {x : Addr} {o : BitVec 8} {m m' : Mem} {v : StackVars} {regs : R}

theorem Holds.congr (h : Holds A c x o m v) (hm : m' x = m x) : Holds A c x o m' v :=
  { h with mem := hm.trans h.mem }

theorem Guarded.congr (h : Guarded c x o m v) (hm : m' x = m x) : Guarded c x o m' v :=
  { h with mem := fun hr he => hm.trans (h.mem hr he) }

theorem Holds.guarded (h : Holds A c x o m v) : Guarded c x o m v where
  mem hr he := by
    have hm := h.mem
    unfold planted at hm
    split_ifs at hm with hw ha
    · exact hm.trans (shown_of_not_inWord fun hx => hr ⟨hw, hx⟩)
    · exact hm.trans (shown_of_not_inWord fun hx => he ⟨ha, hx⟩)
    · exact hm
  entry _ := h.entry
  ret := h.ret

theorem holds_start (h : m x = o) : Holds A c x o (plant A.makePatchedWord m c.entryVaddr)
    ((stackCommand A).start c (readWord m c.entryVaddr)) where
  mem := plant_apply h
  entry := saves_readWord h
  ret := by simp [stackCommand]
  one := by simp [stackCommand]

/-- With the entry word written back while no call is sampled, the byte is the one from before the
attach, whether the breakpoint was planted or not. -/
theorem Holds.entryMem (h : Holds A c x o m v) (hw : v.waitingForExit = false) :
    entryMem c m v x = o :=
  writeWord_saves (fun hx => h.guarded.mem (by simp [hw]) fun ha => hx ha.2) h.entry

theorem Holds.exitMem (h : Holds A c x o m v) (hw : v.waitingForExit = true) :
    exitMem m v x = o :=
  writeWord_saves (fun hx => h.guarded.mem (fun hr => hx hr.2) (by simp [h.one hw])) (h.ret hw)

/-- With no breakpoint planted, nothing is hidden. -/
theorem holds_unarmed (hm : m x = o) (he : Saves c.entryVaddr v.origEntry x o)
    (hw : v.waitingForExit = false) : Holds A c x o m (unarmedVars v) where
  mem := by simpa [planted, unarmedVars, hw] using hm
  entry := he
  ret := by simp [unarmedVars, hw]
  one _ := rfl

theorem holds_armed (hm : m x = o) (hw : v.waitingForExit = false) :
    Holds A c x o (plant A.makePatchedWord m c.entryVaddr) (armedVars c m v) where
  mem := by simpa [planted, armedVars, hw] using plant_apply hm
  entry := saves_readWord hm
  ret := by simp [armedVars, hw]
  one := by simp [armedVars, hw]

theorem Holds.exitArmed (h : Holds A c x o m v) (hw : v.waitingForExit = false) :
    Holds A c x o (exitArmedMem A c m v regs) (exitArmedVars A c m v regs) where
  mem := plant_apply (h.entryMem hw)
  entry := h.entry
  ret _ := saves_readWord (h.entryMem hw)
  one _ := rfl

theorem Holds.entryArmed (h : Holds A c x o m v) (hw : v.waitingForExit = true) :
    Holds A c x o (entryArmedMem A c m v) (entryArmedVars c m v) :=
  holds_armed (h.exitMem hw) rfl

/-- The memory after the return word is written back, if the flags stand for it. -/
def unplantedRet (m : Mem) (v : StackVars) : Mem :=
  if v.waitingForExit = true ∧ v.retVaddr ≠ 0 then exitMem m v else m

/-- The memory after the breakpoints the flags stand for are written back, the one at the return
address first. -/
def unplanted (c : Target) (m : Mem) (v : StackVars) : Mem :=
  if v.entryArmed = true then entryMem c (unplantedRet m v) v else unplantedRet m v

/-- What is right enough for the guard lets it restore the byte, unless the flags stand for a return
breakpoint at address `0`. -/
theorem Guarded.unplanted (h : Guarded c x o m v)
    (hz : v.waitingForExit = true → v.retVaddr ≠ 0) : unplanted c m v x = o := by
  have hret : ¬ (v.entryArmed = true ∧ InWord c.entryVaddr x) → unplantedRet m v x = o := by
    intro he
    unfold unplantedRet
    split_ifs with hw
    · exact writeWord_saves (fun hx => h.mem (fun hr => hx hr.2) he) (h.ret hw.1)
    · exact h.mem (fun hr => hw ⟨hr.1, hz hr.1⟩) he
  unfold Stack.unplanted
  split_ifs with ha
  · exact writeWord_saves (fun hx => hret fun he => hx he.2) (h.entry ha)
  · exact hret fun he => ha he.1

section Undoing

variable {s : Session R StackVars StackEvent} (hs : s.tracee.isStopped)
  (hf : s.fault = Fault.none)
include hs hf

theorem post_detach {k : ℕ} (hm : m = unplanted c s.tracee.mem s.vars) :
    Post ptraceDetach (s.put k m s.tracee.regs s.vars s.results)
      (fun _ t => t.results = s.results ∧ t.tracee.traced = false ∧
        t.tracee.mem = unplanted c s.tracee.mem s.vars) (fun _ _ => False) := by
  rw [post_ptraceDetach, Session.put_answers]
  exact ⟨fun _ => ⟨rfl, rfl, hm⟩, fun h => (h (answersAt_of_none hs hf _ _)).elim⟩

/-- The cleanup of a stopped tracee takes out what is planted. -/
theorem post_cleanup : Post (cleanup c) s
    (fun _ t => t.results = s.results ∧ t.tracee.traced = false ∧
      t.tracee.mem = unplanted c s.tracee.mem s.vars) (fun _ _ => False) := by
  have hans : ∀ k q, s.answersAt k q := answersAt_of_none hs hf
  rw [← s.put_self]
  simp only [cleanup, post_bind, post_get, post_ite, post_restoreWord, Session.put_answers,
    Session.put_tick, Session.put_setMem, Session.put_vars, Session.put_tracee, hans, true_implies,
    not_true_eq_false, false_implies, and_true]
  refine ⟨fun hw => ⟨fun ha => post_detach hs hf ?_, fun ha => post_detach hs hf ?_⟩,
    fun hw => ⟨fun ha => post_detach hs hf ?_, fun ha => post_detach hs hf ?_⟩⟩ <;>
  simp only [unplanted, unplantedRet, hw, ha, if_true, if_false, entryMem, exitMem, ne_eq,
    not_false_eq_true, and_self, Bool.false_eq_true]

/-- So does the guard. -/
theorem post_guard : Post (guard c) s
    (fun _ t => t.results = s.results ∧ t.tracee.traced = false ∧
      t.tracee.mem = unplanted c s.tracee.mem s.vars) (fun _ _ => False) := by
  have hans : ∀ k q, s.answersAt k q := answersAt_of_none hs hf
  rw [← s.put_self]
  simp only [guard, post_bind, post_get, post_ite, post_pokeData, Session.put_answers,
    Session.put_tick, Session.put_setMem, Session.put_vars, Session.put_tracee, hans, true_implies,
    not_true_eq_false, false_implies, and_true]
  refine ⟨fun hw => ⟨fun ha => post_detach hs hf ?_, fun ha => post_detach hs hf ?_⟩,
    fun hw => ⟨fun ha => post_detach hs hf ?_, fun ha => post_detach hs hf ?_⟩⟩ <;>
  simp only [unplanted, unplantedRet, hw, ha, if_true, if_false, entryMem, exitMem, ne_eq,
    not_false_eq_true, and_self, Bool.false_eq_true]

end Undoing

/-- Where the byte is as before the attach, the flags must not stand for wrong words. -/
theorem guarded_of_eq (hm : m x = o) (he : v.entryArmed = true → Saves c.entryVaddr v.origEntry x o)
    (hr : v.waitingForExit = true → Saves v.retVaddr v.origRet x o) : Guarded c x o m v :=
  ⟨fun _ _ => hm, he, hr⟩

/-- **The handling of a stop**, whichever of its requests fail, keeps the bookkeeping right if it
returns, and leaves it right enough for the guard if it throws. -/
theorem post_hit_holds {r : Round R} {s : Session R StackVars StackEvent}
    (h : Holds A c x o s.tracee.mem s.vars) :
    Post (hit A c r) s (fun _ t => Holds A c x o t.tracee.mem t.vars)
      (fun _ t => Guarded c x o t.tracee.mem t.vars) := by
  rw [post_hit]
  refine ⟨fun _ => ⟨fun hhit => post_entryHit ?_, fun _ => ⟨fun hhit => ?_, fun _ => h⟩⟩,
    fun _ => h.guarded⟩
  · have hm : entryMem c s.tracee.mem s.vars x = o := h.entryMem hhit.1
    have hunarmed := (holds_unarmed (A := A) hm h.entry hhit.1).guarded
    have hret : ∀ {P : Prop}, s.vars.waitingForExit = true → P := by simp [hhit.1]
    exact {
      takeOut := fun _ => h.guarded
      setRegs := fun _ => hunarmed
      count := fun _ _ _ => holds_unarmed hm h.entry hhit.1
      peekRet := fun _ _ _ => guarded_of_eq hm (fun _ => h.entry) hret
      pokeRet := fun _ _ _ => guarded_of_eq hm (fun _ => h.entry) hret
      exitArmed := fun _ _ _ _ _ => h.exitArmed hhit.1
      peekEntry := fun _ _ _ => hunarmed
      pokeEntry := fun _ _ _ => hunarmed
      rearmed := fun _ _ _ => holds_armed hm hhit.1 }
  · have hm : exitMem s.tracee.mem s.vars x = o := h.exitMem hhit.1
    -- until the flag is cleared the guard writes the return word once more, which is harmless
    have hset : Guarded c x o (exitMem s.tracee.mem s.vars) s.vars :=
      guarded_of_eq hm (fun _ => h.entry) h.ret
    have hclear : Guarded c x o (exitMem s.tracee.mem s.vars)
        { s.vars with waitingForExit := false } :=
      guarded_of_eq hm (fun _ => h.entry) (by simp)
    rw [post_returnHit rfl]
    exact ⟨fun _ => ⟨fun _ => ⟨fun _ => ⟨fun _ => h.entryArmed hhit.1, fun _ => hclear⟩,
      fun _ => hclear⟩, fun _ => hset⟩, fun _ => h.guarded⟩

/-- When no request fails, the handling of a stop returns. -/
theorem post_hit_returns {r : Round R} {s : Session R StackVars StackEvent}
    (hs : s.tracee.isStopped) (hf : s.fault = Fault.none) :
    Post (hit A c r) s (fun _ _ => True) (fun _ _ => False) := by
  have hans : ∀ k q, s.tick.answersAt k q := answersAt_of_none hs hf
  rw [post_hit]
  refine ⟨fun _ => ⟨fun _ => post_entryHit ?_, fun _ => ⟨fun _ => ?_, fun _ => trivial⟩⟩,
    fun hn => hn (answers_of_none hs hf _)⟩
  · constructor <;> simp [hans]
  · rw [post_returnHit rfl]
    simp [hans]

end Stack

end Uatu
