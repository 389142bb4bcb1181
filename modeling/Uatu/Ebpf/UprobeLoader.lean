import Uatu.Foundations.Throwing
import Uatu.Types

/-!
# Attaching the probes

`UprobeLoader::attach` of `src/ebpf/uprobe_loader.cpp`. What the system answers is a parameter; the
state is the list of links the loader keeps, with the calls of `bpf_program__attach_uprobe` that
were made and the links that they returned, kept or not. The loader keeps each of them
(`UprobeLoader.Keeps`).
-/

namespace Uatu

open Throwing

/-- The arguments of a call of `bpf_program__attach_uprobe`. -/
structure UprobeCall where
  retprobe : Bool
  pid : ℤ
  binaryPath : Text
  /-- An offset in the binary file. -/
  funcOffset : Word
  deriving DecidableEq

/-- What the system answers while probes are attached. -/
structure UprobeSystem where
  /-- `readlink` of `/proc/<pid>/exe`. -/
  exe : Option Text
  /-- `bpf_object__find_program_by_name` finds the program. -/
  findProgram : Text → Bool
  /-- `bpf_program__attach_uprobe` returns a link. -/
  attachUprobe : UprobeCall → Bool

/-- A `bpf_link`. -/
structure BpfLink where
  /-- How many links were created before it. -/
  id : ℕ
  /-- The call that returned it. -/
  call : UprobeCall
  deriving DecidableEq

/-- `UprobeLoader`, as far as it attaches probes. -/
structure UprobeLoader where
  pid : ℤ
  links : List BpfLink
  /-- All calls of `bpf_program__attach_uprobe` that were made. -/
  calls : List UprobeCall
  /-- All links that they returned, whatever has become of them. -/
  created : List BpfLink

namespace UprobeLoader

/-- What the links of a loader probe. -/
def probes (loader : UprobeLoader) : List UprobeCall := loader.links.map BpfLink.call

variable (sys : UprobeSystem)

/-- `bpf_program__attach_uprobe`: a new link, or null. -/
def bpfAttachUprobe (call : UprobeCall) : EStateM Text UprobeLoader (Option BpfLink) := do
  modify fun loader => { loader with calls := loader.calls ++ [call] }
  if sys.attachUprobe call then do
    let link : BpfLink := ⟨(← get).created.length, call⟩
    modify fun loader => { loader with created := loader.created ++ [link] }
    return some link
  else return none

/-- A link is asked for and, unless it is null, kept. -/
def attachUprobe (call : UprobeCall) (text : Text) : EStateM Text UprobeLoader Unit := do
  match ← bpfAttachUprobe sys call with
  | none => throw text
  | some link => modify fun loader => { loader with links := loader.links ++ [link] }

/-- The path of the executable, as far as the buffer holds it. -/
def exePath : EStateM Text UprobeLoader Text :=
  match sys.exe with
  | none => throw "readlink /proc/pid/exe failed".toList
  | some path =>
    if path = [] then throw "readlink /proc/pid/exe failed".toList else return path.take 511

/-- `attach`. -/
def attach (funcAddress : Addr) : EStateM Text UprobeLoader Unit := do
  let exePath ← exePath sys
  if sys.findProgram "uprobe_entry".toList ∧ sys.findProgram "uprobe_exit".toList then do
    let pid := (← get).pid
    attachUprobe sys ⟨false, pid, exePath, funcAddress⟩ "attach entry uprobe failed".toList
    attachUprobe sys ⟨true, pid, exePath, funcAddress⟩ "attach exit uprobe failed".toList
  else throw "uprobe programs not found in BPF object".toList

variable {sys} {loader : UprobeLoader}

/-- The loader after a call that returned null. -/
def refused (loader : UprobeLoader) (call : UprobeCall) : UprobeLoader :=
  { loader with calls := loader.calls ++ [call] }

/-- The loader after a call that returned a link. -/
def linked (loader : UprobeLoader) (call : UprobeCall) : UprobeLoader :=
  { loader with
    links := loader.links ++ [⟨loader.created.length, call⟩]
    calls := loader.calls ++ [call]
    created := loader.created ++ [⟨loader.created.length, call⟩] }

/-- A call returns a link or null. -/
theorem post_attachUprobe_iff {call : UprobeCall} {text : Text} {Q : Unit → UprobeLoader → Prop}
    {E : Text → UprobeLoader → Prop} : Post (attachUprobe sys call text) loader Q E ↔
      (sys.attachUprobe call = true → Q () (loader.linked call)) ∧
        (¬ sys.attachUprobe call = true → E text (loader.refused call)) := by
  simp only [attachUprobe, bpfAttachUprobe, post_bind, post_modify, post_get, post_ite, post_pure,
    post_throw]
  rfl

/-- Only calls at this offset are made in between. -/
def CallsAt (off : Word) (loader loader' : UprobeLoader) : Prop :=
  ∃ calls, loader'.calls = loader.calls ++ calls ∧ ∀ call ∈ calls, call.funcOffset = off

theorem CallsAt.refl {off : Word} : CallsAt off loader loader := ⟨[], by simp, by simp⟩

theorem CallsAt.trans {off : Word} {l₁ l₂ l₃ : UprobeLoader} (h : CallsAt off l₁ l₂)
    (h' : CallsAt off l₂ l₃) : CallsAt off l₁ l₃ := by
  obtain ⟨calls, hcalls, hoff⟩ := h
  obtain ⟨calls', hcalls', hoff'⟩ := h'
  refine ⟨calls ++ calls', by rw [hcalls', hcalls, List.append_assoc], fun call hcall => ?_⟩
  exact (List.mem_append.1 hcall).elim (hoff call) (hoff' call)

/-- What every call of `bpf_program__attach_uprobe` keeps, `attach` keeps. -/
theorem post_attach_keeps {I : UprobeLoader → Prop} {funcAddress : Addr} (hI : I loader)
    (hcall : ∀ call text l, call.funcOffset = funcAddress → I l →
      Post (attachUprobe sys call text) l (fun _ l => I l) fun _ l => I l) :
    Post (attach sys funcAddress) loader (fun _ l => I l) fun _ l => I l := by
  have hpath : Post (exePath sys) loader (fun _ l => I l) fun _ l => I l := by
    unfold exePath
    split
    · exact hI
    · rw [post_ite]
      exact ⟨fun _ => hI, fun _ => hI⟩
  rw [attach, post_bind]
  refine hpath.mono (fun path l hl => ?_) fun e l hl => hl
  rw [post_ite]
  refine ⟨fun _ => ?_, fun _ => hl⟩
  simp only [post_bind, post_get]
  exact (hcall _ _ l rfl hl).mono (fun _ l' hl' => hcall _ _ l' rfl hl') fun _ l' hl' => hl'

theorem post_attachUprobe {call : UprobeCall} {text : Text} :
    Post (attachUprobe sys call text) loader (fun _ l => CallsAt call.funcOffset loader l)
      fun _ l => CallsAt call.funcOffset loader l := by
  rw [post_attachUprobe_iff]
  exact ⟨fun _ => ⟨[call], rfl, by simp⟩, fun _ => ⟨[call], rfl, by simp⟩⟩

/-- The link-time address is passed on as an offset in the file. -/
theorem callsAt_attach (sys : UprobeSystem) (loader : UprobeLoader) (funcAddress : Addr) :
    CallsAt funcAddress loader (finalState (attach sys funcAddress) loader) := by
  refine post_finalState.1 (post_attach_keeps .refl fun call text l hoff hl => ?_)
  subst hoff
  exact post_attachUprobe.mono (fun _ l' hl' => hl.trans hl') fun _ l' hl' => hl.trans hl'

/-- The loader keeps exactly the links that were created, which are numbered in order. -/
structure Keeps (loader : UprobeLoader) : Prop where
  links : loader.links = loader.created
  ids : loader.created.map BpfLink.id = List.range loader.created.length

theorem Keeps.linked (h : loader.Keeps) (call : UprobeCall) : (loader.linked call).Keeps where
  links := by
    change loader.links ++ _ = loader.created ++ _
    rw [h.links]
  ids := by
    change (loader.created ++ [_]).map BpfLink.id = List.range (loader.created ++ [_]).length
    rw [List.map_append, h.ids, List.length_append, List.length_singleton, List.range_succ]
    rfl

/-- **`attach` keeps every link that it creates**, also where it throws. -/
theorem post_attach_created {funcAddress : Addr} (h : loader.Keeps) :
    Post (attach sys funcAddress) loader (fun _ l => l.Keeps ∧ loader.created <+: l.created)
      fun _ l => l.Keeps ∧ loader.created <+: l.created := by
  refine post_attach_keeps ⟨h, List.prefix_refl _⟩ fun call text l _ hl => ?_
  rw [post_attachUprobe_iff]
  exact ⟨fun _ => ⟨hl.1.linked call, hl.2.trans (List.prefix_append _ _)⟩,
    fun _ => ⟨⟨hl.1.links, hl.1.ids⟩, hl.2⟩⟩

end UprobeLoader

end Uatu
