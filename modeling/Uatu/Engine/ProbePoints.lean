import Uatu.Ebpf.UprobeLoader
import Uatu.Elf.Layout
import Uatu.Engine.Attribution
import Uatu.Engine.Loop
import Uatu.Engine.Trace

/-!
# Where the two paths watch

`trace` plants its breakpoint at the link-time address of a function plus the slide, and `watch`
expects the events of its probes from there. The probes are attached at the link-time address too,
but the kernel takes it for an offset in the file: they are hit at the same place exactly if the
code at that offset is loaded at that link-time address (`probes_meet_breakpoint_iff`).
-/

namespace Uatu

open Throwing

variable {R V ν : Type} {pageSize : ℕ} {impl : Impl} {bias : Word} {vmas : List Vma}

/-- The lines of the executable's mappings are those its path occurs in. -/
def Impl.Lists (impl : Impl) (vmas : List Vma) : Prop :=
  (impl.maps.filter fun line => impl.exePath <:+: line.path) = vmas.map Vma.toMapsLine

/-- **The slide is the load bias**, up to the skew of the header. -/
theorem getAslrSlide_eq (hload : Loaded pageSize impl.elf bias vmas) (hmaps : impl.Lists vmas) :
    impl.getAslrSlide = bias + impl.elf.headerSkew pageSize bias := by
  rw [Impl.getAslrSlide, hload.getLoadBase_eq hmaps, ElfFile.headerSkew]
  cases impl.elf.headerAddr pageSize with
  | none =>
    change 0 - elfMinVaddr impl.elf = bias + (-bias - elfMinVaddr impl.elf)
    rw [← add_sub_assoc, add_neg_cancel]
  | some v =>
    exact add_sub_assoc bias v _

/-- A segment puts this offset at a runtime address that the offset and a slide add up to. -/
theorem addrOf_eq_iff {phdr : Phdr} {off skew : Word} :
    bias + phdr.addrOf off = off + (bias + skew) ↔ phdr.pVaddr = phdr.pOffset + skew := by
  unfold Phdr.addrOf
  constructor <;> intro h <;> bv_omega

/-- **The probes and the breakpoint**: the probes of a function are hit exactly at its address plus
the slide if and only if the segments that load code from the offset they are attached at, and there
are such, have link-time addresses that are their offsets. This is where `trace` plants its
breakpoint and where `watch` looks its events up. -/
theorem probes_meet_breakpoint_iff {sys : UprobeSystem} {loader : UprobeLoader} {fi : FuncInfo}
    {calls : List UprobeCall} {call : UprobeCall} (hload : Loaded pageSize impl.elf bias vmas)
    (hmaps : impl.Lists vmas)
    (hcalls : (finalState (UprobeLoader.attach sys fi.address) loader).calls =
      loader.calls ++ calls) (hcall : call ∈ calls) :
    ((∀ a, a ∈ uprobeAddrs vmas call.funcOffset ↔ a = fi.address + impl.getAslrSlide) ↔
      impl.elf.codeSegments pageSize fi.address ≠ [] ∧
        ∀ phdr ∈ impl.elf.codeSegments pageSize fi.address,
          phdr.pVaddr = phdr.pOffset + impl.elf.headerSkew pageSize bias) ∧
    (∀ finder funcName, impl.finder = .ok finder → finder.find funcName = some fi →
      ∀ (A : Arch R) count timeoutMs env s c deadline t,
        (traceCommand A).prepare impl funcName count timeoutMs env s = .ok (c, deadline) t →
          c.entryVaddr = fi.address + impl.getAslrSlide) ∧
    ∀ targets maxEvents, fi ∈ targets →
      ∃ p, (Watch.mk targets impl.getAslrSlide maxEvents).target
        (fi.address + impl.getAslrSlide) = some p := by
  have hoff : call.funcOffset = fi.address := by
    obtain ⟨calls', hcalls', hoff⟩ := UprobeLoader.callsAt_attach sys loader fi.address
    obtain rfl := List.append_cancel_left (hcalls.symm.trans hcalls')
    exact hoff call hcall
  refine ⟨?_, fun finder funcName hfinder hfind A count timeoutMs env s c deadline t hprep =>
    (Command.prepared_of_prepare hprep).entryVaddr hfinder hfind, fun targets maxEvents hfi =>
    Watch.exists_target hfi⟩
  simp only [hoff, hload.mem_uprobeAddrs, getAslrSlide_eq hload hmaps]
  constructor
  · intro h
    obtain ⟨phdr, hphdr, -⟩ := (h _).2 rfl
    exact ⟨List.ne_nil_of_mem hphdr, fun phdr hphdr => addrOf_eq_iff.1 ((h _).1 ⟨phdr, hphdr, rfl⟩)⟩
  · rintro ⟨hne, h⟩ a
    obtain ⟨phdr₀, hphdr₀⟩ := List.exists_mem_of_ne_nil _ hne
    constructor
    · rintro ⟨phdr, hphdr, rfl⟩
      exact addrOf_eq_iff.2 (h phdr hphdr)
    · rintro rfl
      exact ⟨phdr₀, hphdr₀, (addrOf_eq_iff.2 (h phdr₀ hphdr₀)).symm⟩

/-! ## A file of two segments -/

namespace ElfFile

/-- The first page of the file, with the headers. -/
def headers (base : Addr) : Phdr := ⟨PT_LOAD, 4, 0, base, 0x500, 0x500⟩

/-- Two more pages, with the code. -/
def code (v : Addr) : Phdr := ⟨PT_LOAD, 5, 0x1000, v, 0x2000, 0x2000⟩

@[simp] theorem executable_headers {base : Addr} : (headers base).executable = false := by
  simp [Phdr.executable, headers, PF_X]

@[simp] theorem writable_headers {base : Addr} : (headers base).writable = false := by
  simp [Phdr.writable, headers, PF_W]

@[simp] theorem executable_code {v : Addr} : (code v).executable = true := by
  simp [Phdr.executable, code, PF_X]

@[simp] theorem writable_code {v : Addr} : (code v).writable = false := by
  simp [Phdr.writable, code, PF_W]

/-- A position-independent file whose code is linked at `v`. -/
def app (v : Addr) : ElfFile := ⟨true, [headers 0, code v]⟩

/-- The mapping of the first page. -/
def headersVma (bias : Addr) : Vma := ⟨⟨bias, bias + 0x1000, 0, "/bin/app".toList⟩, false, false⟩

/-- The mapping of the code. -/
def codeVma (start : Addr) : Vma :=
  ⟨⟨start, start + 0x2000, 0x1000, "/bin/app".toList⟩, false, true⟩

/-- The mappings of the file. -/
def appVmas (v bias : Addr) : List Vma := [headersVma bias, codeVma (bias + v)]

variable {v bias : Addr}

theorem forall_mem_appVmas {P : Vma → Prop} :
    (∀ vma ∈ appVmas v bias, P vma) ↔ P (headersVma bias) ∧ P (codeVma (bias + v)) := by
  simp [appVmas]

theorem segmentAt_app (hpage : v.toNat % 4096 = 0) (hv : 0x1000 ≤ v.toNat ∧ v.toNat < 2 ^ 47)
    {u : Addr} :
    (app v).segmentAt 4096 u =
      if u < 0x1000 then some (headers 0) else if u - v < 0x2000 then some (code v) else none := by
  have hheaders : (headers 0).Covers 4096 u ↔ u < 0x1000 := by
    simp only [Phdr.Covers, headers, true_and]
    bv_omega
  have hcode : (code v).Covers 4096 u ↔ ¬ u < 0x1000 ∧ u - v < 0x2000 := by
    simp only [Phdr.Covers, code, true_and]
    bv_omega
  simp only [segmentAt, app, List.filter_cons, List.filter_nil, decide_eq_true_eq, hheaders, hcode]
  by_cases h : u < 0x1000
  · rw [if_pos h, if_neg fun hc => hc.1 h, if_pos h]
    rfl
  · rw [if_neg h, if_neg h]
    by_cases h' : u - v < 0x2000
    · rw [if_pos ⟨h, h'⟩, if_pos h']
      rfl
    · rw [if_neg fun hc => h' hc.2, if_neg h']
      rfl

theorem loaded_app (hpage : v.toNat % 4096 = 0) (hv : 0x1000 ≤ v.toNat ∧ v.toNat < 2 ^ 47)
    (hbias : bias.toNat < 2 ^ 47) : Loaded 4096 (app v) bias (appVmas v bias) where
  ordered := by
    simp only [appVmas, List.pairwise_pair, headersVma, codeVma]
    bv_omega
  nonempty := by
    rw [forall_mem_appVmas]
    constructor <;> simp only [headersVma, codeVma] <;> bv_omega
  bounded := by
    rw [forall_mem_appVmas]
    constructor <;> simp only [headersVma, codeVma] <;> bv_omega
  mapped := by
    rw [forall_mem_appVmas]
    constructor
    · rintro a ⟨hstart, hstop⟩
      simp only [headersVma] at hstart hstop
      refine ⟨headers 0, ?_, ?_, by simp [headersVma]⟩
      · rw [segmentAt_app hpage hv, if_pos (by bv_omega)]
      · simp only [Phdr.offsetAt, headers, Vma.offsetAt, headersVma]
        bv_omega
    · rintro a ⟨hstart, hstop⟩
      simp only [codeVma] at hstart hstop
      refine ⟨code v, ?_, ?_, by simp [codeVma]⟩
      · rw [segmentAt_app hpage hv, if_neg (by bv_omega), if_pos (by bv_omega)]
      · simp only [Phdr.offsetAt, code, Vma.offsetAt, codeVma]
        bv_omega
  complete := by
    intro u phdr h
    rw [segmentAt_app hpage hv] at h
    split_ifs at h
    · refine ⟨headersVma bias, by simp [appVmas], ?_⟩
      simp only [Vma.Contains, headersVma]
      constructor <;> bv_omega
    · refine ⟨codeVma (bias + v), by simp [appVmas], ?_⟩
      simp only [Vma.Contains, codeVma]
      constructor <;> bv_omega
  monotone := by
    have hlt : ∀ u phdr, (app v).segmentAt 4096 u = some phdr → u.toNat < 2 ^ 47 + 0x2000 := by
      intro u phdr h
      rw [segmentAt_app hpage hv] at h
      split_ifs at h
      · bv_omega
      · bv_omega
    intro u u' phdr phdr' h h' hle
    have hu := hlt u phdr h
    have hu' := hlt u' phdr' h'
    bv_omega

end ElfFile

open ElfFile

/-- A process of such a file, in which `f` is at the given link-time address. -/
def Impl.app (v bias address : Addr) : Impl where
  exePath := "/bin/app".toList
  finder := .ok ⟨[Watch.intFunc "f".toList address]⟩
  elf := ElfFile.app v
  maps := (appVmas v bias).map Vma.toMapsLine

theorem lists_app {v bias address : Addr} : (Impl.app v bias address).Lists (appVmas v bias) := by
  refine List.filter_eq_self.2 fun line hline => decide_eq_true ?_
  obtain ⟨vma, hvma, rfl⟩ := List.mem_map.1 hline
  have hpath : ∀ vma ∈ appVmas v bias, vma.path = "/bin/app".toList :=
    forall_mem_appVmas.2 ⟨rfl, rfl⟩
  exact hpath vma hvma ▸ List.infix_refl _

/-- A system in which everything can be attached. -/
def UprobeSystem.allowed : UprobeSystem := ⟨some "/bin/app".toList, fun _ => true, fun _ => true⟩

/-- A file whose code has its offsets as link-time addresses. -/
theorem probes_meet_breakpoint_iff_app :
    0x555555555234 ∈ uprobeAddrs (appVmas 0x1000 0x555555554000) 0x1234 ∧
    ∀ a ∈ uprobeAddrs (appVmas 0x1000 0x555555554000) 0x1234, a = 0x555555555234 := by
  have hcalls : (finalState (UprobeLoader.attach .allowed 0x1234) ⟨1, [], [], []⟩).calls =
      [] ++ [⟨false, 1, "/bin/app".toList, 0x1234⟩, ⟨true, 1, "/bin/app".toList, 0x1234⟩] := by
    decide
  have hmeet := (@probes_meet_breakpoint_iff Unit 4096 (Impl.app 0x1000 0x555555554000 0x1234)
    0x555555554000 _ .allowed ⟨1, [], [], []⟩ (Watch.intFunc "f".toList 0x1234) _ _
    (loaded_app (by decide) (by decide) (by decide)) lists_app hcalls
    (List.mem_cons_self ..)).1.2 (by decide)
  exact ⟨(hmeet _).2 rfl, fun a => (hmeet a).1⟩

/-- A file whose code is linked one page further on: the probe of `f` is hit in other code. -/
theorem probe_misses_breakpoint :
    Loaded 4096 (app 0x2000) 0x555555554000 (appVmas 0x2000 0x555555554000) ∧
    (Impl.app 0x2000 0x555555554000 0x2234).Lists (appVmas 0x2000 0x555555554000) ∧
    (0x2000 : Addr) ≤ 0x2234 ∧ (0x2234 : Addr) < 0x4000 ∧
    ∃ call ∈ (finalState (UprobeLoader.attach .allowed 0x2234) ⟨1, [], [], []⟩).calls,
      uprobeAddrs (appVmas 0x2000 0x555555554000) call.funcOffset = [0x555555557234] ∧
      0x2234 + (Impl.app 0x2000 0x555555554000 0x2234).getAslrSlide ∉
        uprobeAddrs (appVmas 0x2000 0x555555554000) call.funcOffset :=
  ⟨loaded_app (by decide) (by decide) (by decide), lists_app, by decide⟩

end Uatu
