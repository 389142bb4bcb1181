import Uatu.Foundations.BoundedMap
import Uatu.Foundations.Nesting
import Uatu.Types

/-!
# Probes

A uprobe runs a BPF program each time a thread of the process gets to the entry of a probed
function, a uretprobe each time it returns from one. What a run of a program reads is a `Hit`: the
registers of the thread and the answers of the kernel's helpers. The hits of all threads, in the
order in which they happen, are the run of a process; those of one thread are nested.
-/

namespace Uatu

/-- A thread, by the `tid` the programs use. -/
abbrev Tid := BitVec 32

inductive Probe
  | uprobe
  | uretprobe
  deriving DecidableEq

/-- What one run of a BPF program reads. -/
structure Hit where
  probe : Probe
  /-- `bpf_get_current_pid_tgid`. -/
  pidTgid : Word
  /-- `bpf_ktime_get_ns`. -/
  ktime : Word
  /-- `bpf_get_func_ip`: the entry of the function, in a uretprobe too. -/
  funcIp : Addr
  /-- `PT_REGS_PARM1` to `PT_REGS_PARM6`. -/
  parm : Fin 6 → Word
  /-- `PT_REGS_RC`. -/
  rc : Word
  /-- `bpf_ringbuf_reserve` succeeds. -/
  reserved : Bool

/-- `(__u32)bpf_get_current_pid_tgid()`. -/
def Hit.tid (h : Hit) : Tid := h.pidTgid.setWidth 32

/-- Calls of probed functions: an exit fits the entry of the same function. -/
def probedCalls : Nesting.Calls Hit where
  opens h := h.probe = .uprobe
  fits x y := y.funcIp = x.funcIp

/-- The entry and the exit of one call, and the hits between them. -/
abbrev Invocation (x : Hit) (mid : List Hit) (y : Hit) : Prop :=
  Nesting.Invocation probedCalls Hit.tid x mid y

/-- The hits of a thread in a run. -/
def hitsOf (t : Tid) (l : List Hit) : List Hit := l.filter fun h => h.tid = t

/-- `max_entries` of the hash maps. -/
def maxEntries : ℕ := 4096

/-- `entry_times`, from a thread to the time of an entry. -/
abbrev EntryTimes := BoundedMap Tid Word maxEntries

/-- A loaded BPF object: the state of its maps, and what a hit of one of its probes does: it may
submit a record to the ring buffer. -/
structure BpfObject (σ ε : Type) where
  init : σ
  step : σ → Hit → σ × Option ε

namespace BpfObject

variable {σ ε : Type} (obj : BpfObject σ ε)

/-- The maps after a run. -/
def state (l : List Hit) : σ := l.foldl (fun s h => (obj.step s h).1) obj.init

/-- The records submitted in a run from a state of the maps on. -/
def submittedFrom : σ → List Hit → List ε
  | _, [] => []
  | s, h :: l => (obj.step s h).2.toList ++ submittedFrom (obj.step s h).1 l

/-- The records submitted in a run. -/
def submitted (l : List Hit) : List ε := obj.submittedFrom obj.init l

variable {l l' : List Hit} {h : Hit}

theorem state_concat : obj.state (l ++ [h]) = (obj.step (obj.state l) h).1 := by
  simp [state]

theorem submittedFrom_append {s : σ} : obj.submittedFrom s (l ++ l') =
    obj.submittedFrom s l ++ obj.submittedFrom (l.foldl (fun s h => (obj.step s h).1) s) l' := by
  induction l generalizing s with
  | nil => rfl
  | cons h l ih => rw [List.cons_append, submittedFrom, ih, submittedFrom, List.append_assoc]; rfl

/-- A record is submitted after those of the hits before it. -/
theorem submitted_append_cons {r : ε} (l' : List Hit)
    (hr : (obj.step (obj.state l) h).2 = some r) :
    ∃ after, obj.submitted (l ++ h :: l') = obj.submitted l ++ r :: after := by
  refine ⟨obj.submittedFrom (obj.step (obj.state l) h).1 l', ?_⟩
  rw [submitted, submittedFrom_append, submittedFrom]
  change _ ++ ((obj.step (obj.state l) h).2.toList ++ _) = _
  rw [hr]
  rfl

/-- A map of an object in which a hit changes the entry of its own thread only. -/
structure OwnEntry {β : Type} (m : σ → BoundedMap Tid β maxEntries) : Prop where
  init : m obj.init = .empty
  step : ∀ s h, (∃ v, m (obj.step s h).1 = (m s).update h.tid v) ∨
    m (obj.step s h).1 = (m s).delete h.tid

variable {obj} {β : Type} {m : σ → BoundedMap Tid β maxEntries}

/-- Only threads of the run are in the map. -/
theorem OwnEntry.keys_subset (hm : obj.OwnEntry m) {threads : List Tid}
    (hl : ∀ h ∈ l, h.tid ∈ threads) : (m (obj.state l)).entries.keys ⊆ threads := by
  induction l using List.reverseRecOn with
  | nil =>
    rw [state, List.foldl_nil, hm.init]
    exact List.nil_subset _
  | append_singleton l h ih =>
    have ih := ih fun x hx => hl x (List.mem_append_left _ hx)
    rw [state_concat]
    rcases hm.step (obj.state l) h with ⟨v, hv⟩ | hdelete
    · rw [hv]
      exact BoundedMap.keys_update_subset ih (hl h (by simp))
    · rw [hdelete]
      exact BoundedMap.keys_delete_subset ih

/-- A hit of one thread leaves the others alone. -/
theorem OwnEntry.lookup_of_ne (hm : obj.OwnEntry m) {t : Tid} (ht : h.tid ≠ t) :
    (m (obj.state (l ++ [h]))).lookup t = (m (obj.state l)).lookup t := by
  rw [state_concat]
  rcases hm.step (obj.state l) h with ⟨v, hv⟩ | hdelete
  · rw [hv]
    exact BoundedMap.lookup_update_of_ne (Ne.symm ht)
  · rw [hdelete]
    exact BoundedMap.lookup_delete_of_ne (Ne.symm ht)

end BpfObject

end Uatu
