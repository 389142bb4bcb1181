import Uatu.Engine.Loop
import Uatu.Engine.Trace

/-!
# The bookkeeping of `trace()`

At most one breakpoint is planted at a time: the one at the entry while no call is sampled, the one
at the return address while one is. `Trace.Holds` says this of one byte of the tracee's memory that
the tracee itself never writes: what the memory shows there, and that the saved words have the
byte as it was before the attach. Every way the handling of a stop returns keeps it.
-/

namespace Uatu

open ByteMemory Throwing

variable {R : Type} (A : Arch R) (c : Target)

namespace Trace

/-- The planted breakpoint: its address, and the word it was planted over. -/
def planted (v : TraceVars) : Addr × Word :=
  if v.waitingForExit then (v.retVaddr, v.origRet) else (c.entryVaddr, v.origEntry)

/-- The bookkeeping of the loop is right about the byte at `x`, which was `o` before the attach. -/
structure Holds (x : Addr) (o : BitVec 8) (m : Mem) (v : TraceVars) : Prop where
  mem : m x = shown A.makePatchedWord (planted c v) x o
  entry : Saves c.entryVaddr v.origEntry x o
  guard : v.guardWord = v.origEntry
  ret : v.waitingForExit = true → Saves v.retVaddr v.origRet x o

variable {A c} {x : Addr} {o : BitVec 8} {m m' : Mem} {v : TraceVars} {regs : R} {now : Word}

/-- With the planted breakpoint written back, the byte is the one from before the attach. -/
theorem Holds.restored (h : Holds A c x o m v) :
    writeWord m (planted c v).1 (planted c v).2 x = o := by
  refine restore_shown h.mem ?_
  unfold planted
  split_ifs with hw
  · exact h.ret hw
  · exact h.entry

theorem Holds.congr (h : Holds A c x o m v) (hm : m' x = m x) : Holds A c x o m' v :=
  { h with mem := hm.trans h.mem }

theorem Holds.entryTs (h : Holds A c x o m v) : Holds A c x o m { v with entryTs := now } :=
  ⟨h.mem, h.entry, h.guard, h.ret⟩

theorem holds_start (h : m x = o) : Holds A c x o (plant A.makePatchedWord m c.entryVaddr)
    ((traceCommand A).start c (readWord m c.entryVaddr)) where
  mem := plant_apply h
  entry := saves_readWord h
  guard := rfl
  ret := by simp [traceCommand]

theorem Holds.entryMem (h : Holds A c x o m v) (hw : v.waitingForExit = false) :
    entryMem c m v x = o := by
  have hr := h.restored
  rwa [planted, hw] at hr

theorem Holds.exitMem (h : Holds A c x o m v) (hw : v.waitingForExit = true) :
    exitMem m v x = o := by
  have hr := h.restored
  rwa [planted, hw] at hr

theorem Holds.exitArmed (h : Holds A c x o m v) (hw : v.waitingForExit = false) :
    Holds A c x o (exitArmedMem A c m v regs) (exitArmedVars A c m v regs now) where
  mem := plant_apply (h.entryMem hw)
  entry := h.entry
  guard := h.guard
  ret _ := saves_readWord (h.entryMem hw)

theorem Holds.entryArmed (h : Holds A c x o m v) (hw : v.waitingForExit = true) :
    Holds A c x o (entryArmedMem A c m v) (entryArmedVars c m v) where
  mem := plant_apply (h.exitMem hw)
  entry := saves_readWord (h.exitMem hw)
  guard := rfl
  ret := by simp [entryArmedVars]

/-- The handling of a stop, whichever of its requests fail, keeps the bookkeeping right if it
returns. -/
theorem post_hit_holds {r : Round R} {s : Session R TraceVars TraceNode}
    (h : Holds A c x o s.tracee.mem s.vars) :
    Post (hit A c r) s (fun _ t => Holds A c x o t.tracee.mem t.vars) (fun _ _ => True) := by
  rw [post_hit]
  refine ⟨fun _ => ⟨fun hhit => ?_, fun _ => ⟨fun hhit => ?_, fun _ => h⟩⟩, fun _ => trivial⟩
  · rw [post_entryHit rfl]
    simp only [implies_true, and_true]
    exact fun _ _ _ _ _ => h.exitArmed hhit.1
  · rw [post_returnHit rfl]
    simp only [implies_true, and_true]
    exact fun _ _ _ _ => h.entryArmed hhit.1

/-- When no request fails, the handling of a stop returns. -/
theorem post_hit_returns {r : Round R} {s : Session R TraceVars TraceNode}
    (hs : s.tracee.isStopped) (hf : s.fault = Fault.none) :
    Post (hit A c r) s (fun _ _ => True) (fun _ _ => False) := by
  have hans : ∀ k q, s.tick.answersAt k q := answersAt_of_none hs hf
  rw [post_hit]
  refine ⟨fun _ => ⟨fun _ => ?_, fun _ => ⟨fun _ => ?_, fun _ => trivial⟩⟩,
    fun hn => hn (answers_of_none hs hf _)⟩
  · rw [post_entryHit rfl]
    simp [hans]
  · rw [post_returnHit rfl]
    simp [hans]

/-- The bookkeeping is right wherever the iterations of the loop lead to. -/
theorem holds_of_reaches {impl : Impl} {funcName : Text} {count timeoutMs deadline : ℤ}
    {env : Script R} {pre post : List (Round R)} {s₀ s s₁ t : Session R TraceVars TraceNode}
    (hprep : (traceCommand A).prepare impl funcName count timeoutMs env s₀ = .ok (c, deadline) s)
    (harm : (traceCommand A).arm c env s = .ok () s₁) (hrounds : env.rounds = pre ++ post)
    (hreach : (traceCommand A).Reaches c deadline pre s₁ t) {x : Addr} (hx : env.Keeps x) :
    Holds A c x (s₀.tracee.mem x) t.tracee.mem t.vars := by
  have hmem : s.tracee.mem x = s₀.tracee.mem x := (Command.prepared_of_prepare hprep).keeps hx
  have hstart : Holds A c x (s₀.tracee.mem x) s₁.tracee.mem s₁.vars := by
    have ht := Command.armed_of_arm harm
    rw [ht.tracee, ht.vars]
    exact holds_start hmem
  refine hreach.keeps (J := Holds A c x (s₀.tracee.mem x)) (K := (· = x))
    (fun hm h => h.congr (hm x rfl)) (fun y hy r hr b hb => hy ▸ hx.round ?_ hb) hstart
    fun r hr t _ h => post_hit_holds h
  rw [hrounds]
  exact List.mem_append_left _ hr

end Trace

end Uatu
