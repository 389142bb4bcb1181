import Uatu.Elf.Image
import Mathlib.Tactic.SplitIfs

/-!
# Where a file is mapped

Three notions of address meet in a loaded file: link-time addresses, offsets in the file and runtime
addresses. The segments of the file relate the first two page by page. The kernel maps the pages at
a load bias, which relates the first and the last, and places a uprobe, which it is given as an
offset in the file, wherever that offset is mapped as code.
-/

namespace Uatu

def PF_X : BitVec 32 := 1

def PF_W : BitVec 32 := 2

/-! ## Segments -/

namespace Phdr

variable (phdr : Phdr)

def executable : Bool := phdr.pFlags &&& PF_X ≠ 0

def writable : Bool := phdr.pFlags &&& PF_W ≠ 0

/-- The link-time address lies in a page that the segment loads from the file. -/
def Covers (pageSize : ℕ) (v : Addr) : Prop :=
  phdr.pType = PT_LOAD ∧ phdr.pFilesz ≠ 0 ∧ phdr.pVaddr.toNat / pageSize ≤ v.toNat / pageSize ∧
    v.toNat / pageSize * pageSize < phdr.pVaddr.toNat + phdr.pFilesz.toNat

instance (pageSize : ℕ) : DecidablePred (phdr.Covers pageSize) := fun _ =>
  inferInstanceAs (Decidable (_ ∧ _ ∧ _ ∧ _))

/-- The offset in the file of a link-time address. -/
def offsetAt (v : Addr) : Word := phdr.pOffset + (v - phdr.pVaddr)

/-- The link-time address of an offset in the file. -/
def addrOf (off : Word) : Addr := phdr.pVaddr + (off - phdr.pOffset)

variable {phdr}

theorem offsetAt_eq_iff {v : Addr} {off : Word} : phdr.offsetAt v = off ↔ v = phdr.addrOf off := by
  rw [offsetAt, addrOf, ← eq_sub_iff_add_eq', sub_eq_iff_eq_add']

@[simp] theorem offsetAt_addrOf {off : Word} : phdr.offsetAt (phdr.addrOf off) = off :=
  offsetAt_eq_iff.2 rfl

end Phdr

namespace ElfFile

variable (pageSize : ℕ) (file : ElfFile)

/-- The segment that is loaded at a link-time address: of several the last, whose pages replace
those of the others. -/
def segmentAt (v : Addr) : Option Phdr :=
  (file.phdrs.filter fun phdr => phdr.Covers pageSize v).getLast?

/-- The segments that load an offset in the file. -/
def segmentsOf (off : Word) : List Phdr :=
  file.phdrs.filter fun phdr => file.segmentAt pageSize (phdr.addrOf off) = some phdr

/-- The segments that load an offset in the file as code. -/
def codeSegments (off : Word) : List Phdr :=
  (file.segmentsOf pageSize off).filter fun phdr => phdr.executable ∧ ¬ phdr.writable

/-- The lowest link-time address at which the start of the file is loaded. -/
def headerAddr : Option Addr :=
  ((file.segmentsOf pageSize 0).map fun phdr => (phdr.addrOf 0).toNat).min?.map (BitVec.ofNat 64)

/-- How far the load address that is looked up is from the link-time base that is subtracted from
it, up to the load bias. In a usual file this is `0` (`headerSkew_eq_zero`). -/
def headerSkew (bias : Word) : Word :=
  match file.headerAddr pageSize with
  | some v => v - elfMinVaddr file
  | none => -bias - elfMinVaddr file

variable {pageSize file}

theorem mem_of_segmentAt {v : Addr} {phdr : Phdr} (h : file.segmentAt pageSize v = some phdr) :
    phdr ∈ file.phdrs ∧ phdr.Covers pageSize v := by
  simpa using List.mem_of_getLast? h

theorem mem_segmentsOf {off : Word} {phdr : Phdr} :
    phdr ∈ file.segmentsOf pageSize off ↔
      file.segmentAt pageSize (phdr.addrOf off) = some phdr := by
  simp only [segmentsOf, List.mem_filter, decide_eq_true_eq, and_iff_right_iff_imp]
  exact fun h => (mem_of_segmentAt h).1

theorem mem_codeSegments {off : Word} {phdr : Phdr} :
    phdr ∈ file.codeSegments pageSize off ↔
      file.segmentAt pageSize (phdr.addrOf off) = some phdr ∧ phdr.executable = true ∧
        phdr.writable = false := by
  simp [codeSegments, mem_segmentsOf]

/-- The start of the file is loaded at this link-time address. -/
def LoadsHeader (pageSize : ℕ) (file : ElfFile) (v : Addr) : Prop :=
  ∃ phdr, file.segmentAt pageSize v = some phdr ∧ phdr.offsetAt v = 0

theorem loadsHeader_iff {v : Addr} :
    file.LoadsHeader pageSize v ↔ ∃ phdr ∈ file.segmentsOf pageSize 0, phdr.addrOf 0 = v := by
  constructor
  · rintro ⟨phdr, hphdr, hv⟩
    rw [Phdr.offsetAt_eq_iff] at hv
    subst hv
    exact ⟨phdr, mem_segmentsOf.2 hphdr, rfl⟩
  · rintro ⟨phdr, hphdr, rfl⟩
    exact ⟨phdr, mem_segmentsOf.1 hphdr, Phdr.offsetAt_addrOf⟩

theorem headerAddr_eq_none_iff :
    file.headerAddr pageSize = none ↔ ∀ v, ¬ file.LoadsHeader pageSize v := by
  simp [headerAddr, loadsHeader_iff, List.eq_nil_iff_forall_not_mem]

theorem headerAddr_eq_some_iff {v : Addr} :
    file.headerAddr pageSize = some v ↔
      file.LoadsHeader pageSize v ∧ ∀ v', file.LoadsHeader pageSize v' → v ≤ v' := by
  simp only [headerAddr, Option.map_eq_some_iff, List.min?_eq_some_iff, List.mem_map,
    loadsHeader_iff]
  constructor
  · rintro ⟨n, ⟨⟨phdr, hphdr, rfl⟩, hle⟩, rfl⟩
    rw [BitVec.ofNat_toNat, BitVec.setWidth_eq]
    exact ⟨⟨phdr, hphdr, rfl⟩, fun v' ⟨phdr', hphdr', hv'⟩ =>
      hv' ▸ hle _ ⟨phdr', hphdr', rfl⟩⟩
  · rintro ⟨⟨phdr, hphdr, rfl⟩, hle⟩
    refine ⟨_, ⟨⟨phdr, hphdr, rfl⟩, ?_⟩, by simp⟩
    rintro n ⟨phdr', hphdr', rfl⟩
    exact hle _ ⟨phdr', hphdr', rfl⟩

/-- In a usual file the first segment to be loaded has the start of the file, and the others come
after it. -/
structure Usual (pageSize : ℕ) (file : ElfFile) (phdr : Phdr) : Prop where
  readable : file.readable = true
  split : ∃ before after, file.phdrs = before ++ phdr :: after ∧
    (∀ phdr' ∈ before, phdr'.pType ≠ PT_LOAD) ∧
    ∀ phdr' ∈ after, phdr'.pType = PT_LOAD →
      phdr.pVaddr.toNat / pageSize < phdr'.pVaddr.toNat / pageSize
  load : phdr.pType = PT_LOAD
  pOffset : phdr.pOffset = 0
  pFilesz : phdr.pFilesz ≠ 0

theorem Usual.elfMinVaddr {phdr : Phdr} (h : file.Usual pageSize phdr) :
    elfMinVaddr file = phdr.pVaddr := by
  obtain ⟨before, after, hphdrs, hbefore, -⟩ := h.split
  have hfind : before.find? (fun phdr => phdr.pType = PT_LOAD ∧ phdr.pOffset = 0) = none := by
    simp +contextual [hbefore]
  rw [Uatu.elfMinVaddr, if_pos h.readable, hphdrs, List.find?_append, hfind, Option.none_or,
    List.find?_cons_of_pos (by simp [h.load, h.pOffset])]

theorem Usual.headerAddr {phdr : Phdr} (h : file.Usual pageSize phdr) :
    file.headerAddr pageSize = some phdr.pVaddr := by
  obtain ⟨before, after, hphdrs, hbefore, hafter⟩ := h.split
  have hcovers : phdr.Covers pageSize phdr.pVaddr := by
    have hpos : 0 < phdr.pFilesz.toNat := by
      have := h.pFilesz
      bv_omega
    have hle := Nat.div_mul_le_self phdr.pVaddr.toNat pageSize
    exact ⟨h.load, h.pFilesz, le_rfl, by omega⟩
  have hseg : file.segmentAt pageSize phdr.pVaddr = some phdr := by
    have hb : (before.filter fun p => p.Covers pageSize phdr.pVaddr) = [] :=
      List.filter_eq_nil_iff.2 fun p hp hc => hbefore p hp (of_decide_eq_true hc).1
    have ha : (after.filter fun p => p.Covers pageSize phdr.pVaddr) = [] :=
      List.filter_eq_nil_iff.2 fun p hp hc =>
        have hc := of_decide_eq_true hc
        (hafter p hp hc.1).not_ge hc.2.2.1
    rw [segmentAt, hphdrs, List.filter_append, hb, List.filter_cons_of_pos (by simpa), ha]
    rfl
  rw [headerAddr_eq_some_iff]
  refine ⟨⟨phdr, hseg, by rw [Phdr.offsetAt, h.pOffset, sub_self, add_zero]⟩, ?_⟩
  rintro v ⟨phdr', hphdr', h0⟩
  obtain ⟨hmem, hc⟩ := mem_of_segmentAt hphdr'
  rw [hphdrs, List.mem_append, List.mem_cons] at hmem
  obtain hmem | rfl | hmem := hmem
  · exact (hbefore phdr' hmem hc.1).elim
  · rw [Phdr.offsetAt_eq_iff] at h0
    rw [h0, Phdr.addrOf, h.pOffset, sub_self, add_zero]
    exact BitVec.le_refl _
  · -- it covers a later page
    have hlt := hafter phdr' hmem hc.1
    exact BitVec.le_def.2 (Nat.lt_of_div_lt_div (hlt.trans_le hc.2.2.1)).le

/-- **In a usual file** the difference of the two bases is the load bias. -/
theorem headerSkew_eq_zero {phdr : Phdr} (h : file.Usual pageSize phdr) (bias : Word) :
    file.headerSkew pageSize bias = 0 := by
  rw [headerSkew, h.headerAddr, h.elfMinVaddr]
  exact sub_self _

end ElfFile

/-! ## Lines -/

namespace MapsLine

variable (line : MapsLine)

def Contains (a : Addr) : Prop := line.start ≤ a ∧ a < line.stop

/-- The offset in the file of a runtime address. -/
def offsetAt (a : Addr) : Word := line.offset + (a - line.start)

end MapsLine

/-- The lines are those of a file that the kernel has loaded at a load bias, in whatever order, and
whatever their permissions have become. -/
structure MappedAt (pageSize : ℕ) (file : ElfFile) (bias : Word) (own : List MapsLine) : Prop where
  nonempty : ∀ line ∈ own, line.start < line.stop
  /-- Offsets do not wrap around. -/
  bounded : ∀ line ∈ own, line.offset.toNat + (line.stop - line.start).toNat ≤ 2 ^ 64
  /-- What is mapped is what a segment loads. -/
  mapped : ∀ line ∈ own, ∀ a, line.Contains a → ∃ phdr,
    file.segmentAt pageSize (a - bias) = some phdr ∧ phdr.offsetAt (a - bias) = line.offsetAt a
  /-- What a segment loads is mapped. -/
  complete : ∀ v phdr, file.segmentAt pageSize v = some phdr →
    ∃ line ∈ own, line.Contains (bias + v)
  /-- The segments are mapped in their order. -/
  monotone : ∀ v v' phdr phdr', file.segmentAt pageSize v = some phdr →
    file.segmentAt pageSize v' = some phdr' → v ≤ v' → bias + v ≤ bias + v'

namespace MappedAt

variable {pageSize : ℕ} {file : ElfFile} {bias : Word} {own : List MapsLine} {line : MapsLine}

/-- A mapping from offset `0` on starts where the start of the file is loaded. -/
theorem loadsHeader_start (h : MappedAt pageSize file bias own) (hmem : line ∈ own)
    (h0 : line.offset = 0) : file.LoadsHeader pageSize (line.start - bias) := by
  obtain ⟨phdr, hphdr, hoffset⟩ :=
    h.mapped line hmem line.start ⟨BitVec.le_refl _, h.nonempty line hmem⟩
  exact ⟨phdr, hphdr, by rw [hoffset, MapsLine.offsetAt, h0, sub_self, add_zero]⟩

theorem exists_line_of_loadsHeader (h : MappedAt pageSize file bias own) {v : Addr}
    (hv : file.LoadsHeader pageSize v) :
    ∃ line ∈ own, line.offset = 0 ∧ line.start = bias + v := by
  obtain ⟨phdr, hphdr, h0⟩ := hv
  obtain ⟨line, hmem, hstart, hstop⟩ := h.complete v phdr hphdr
  obtain ⟨phdr', hphdr', hoffset⟩ := h.mapped line hmem _ ⟨hstart, hstop⟩
  rw [add_sub_cancel_left] at hphdr' hoffset
  obtain rfl : phdr = phdr' := Option.some.inj (hphdr.symm.trans hphdr')
  have hb := h.bounded line hmem
  rw [h0, MapsLine.offsetAt] at hoffset
  refine ⟨line, hmem, ?_, ?_⟩ <;> bv_omega

theorem headerAddr_eq_none (h : MappedAt pageSize file bias own)
    (hown : ∀ line ∈ own, line.offset ≠ 0) : file.headerAddr pageSize = none := by
  rw [ElfFile.headerAddr_eq_none_iff]
  intro v hv
  obtain ⟨line, hmem, h0, -⟩ := h.exists_line_of_loadsHeader hv
  exact hown line hmem h0

/-- The lowest mapping from offset `0` on. -/
theorem headerAddr_eq_some (h : MappedAt pageSize file bias own) (hmem : line ∈ own)
    (h0 : line.offset = 0) (hle : ∀ line' ∈ own, line'.offset = 0 → line.start ≤ line'.start) :
    file.headerAddr pageSize = some (line.start - bias) := by
  rw [ElfFile.headerAddr_eq_some_iff]
  have hstart := h.loadsHeader_start hmem h0
  refine ⟨hstart, fun v hv => ?_⟩
  obtain ⟨line', hmem', h0', hv'⟩ := h.exists_line_of_loadsHeader hv
  have hle' : line.start ≤ bias + v := hv' ▸ hle line' hmem' h0'
  obtain ⟨phdr, hphdr, -⟩ := hstart
  obtain ⟨phdr', hphdr', -⟩ := hv
  have hmono := h.monotone v (line.start - bias) phdr' phdr hphdr' hphdr
  bv_omega

end MappedAt

/-! ## Mappings -/

/-- A mapping of the file in the process. -/
structure Vma extends MapsLine where
  write : Bool
  exec : Bool
  deriving DecidableEq

namespace Vma

variable (vma : Vma)

def Contains (a : Addr) : Prop := vma.start ≤ a ∧ a < vma.stop

/-- The offset in the file of a runtime address. -/
def offsetAt (a : Addr) : Word := vma.offset + (a - vma.start)

/-- The runtime address of an offset in the file, if it is mapped. -/
def addrOf (off : Word) : Option Addr :=
  if vma.offset ≤ off ∧ off - vma.offset < vma.stop - vma.start then
    some (vma.start + (off - vma.offset))
  else none

end Vma

/-- The runtime addresses at which a uprobe at an offset in the file is hit. The kernel leaves
writable mappings alone. -/
def uprobeAddrs (vmas : List Vma) (off : Word) : List Addr :=
  (vmas.filter fun vma => vma.exec ∧ ¬ vma.write).filterMap (·.addrOf off)

/-- The kernel has loaded the file at a load bias, and these are its mappings, in the order of their
addresses. -/
structure Loaded (pageSize : ℕ) (file : ElfFile) (bias : Word) (vmas : List Vma) : Prop where
  ordered : vmas.Pairwise fun vma vma' => vma.stop ≤ vma'.start
  nonempty : ∀ vma ∈ vmas, vma.start < vma.stop
  /-- Offsets do not wrap around. -/
  bounded : ∀ vma ∈ vmas, vma.offset.toNat + (vma.stop - vma.start).toNat ≤ 2 ^ 64
  /-- What is mapped is what a segment loads. -/
  mapped : ∀ vma ∈ vmas, ∀ a, vma.Contains a → ∃ phdr,
    file.segmentAt pageSize (a - bias) = some phdr ∧ phdr.offsetAt (a - bias) = vma.offsetAt a ∧
      phdr.executable = vma.exec ∧ phdr.writable = vma.write
  /-- What a segment loads is mapped. -/
  complete : ∀ v phdr, file.segmentAt pageSize v = some phdr → ∃ vma ∈ vmas, vma.Contains (bias + v)
  /-- The segments are mapped in their order. -/
  monotone : ∀ v v' phdr phdr', file.segmentAt pageSize v = some phdr →
    file.segmentAt pageSize v' = some phdr' → v ≤ v' → bias + v ≤ bias + v'

theorem Vma.addrOf_eq_some {vma : Vma} (hne : vma.start < vma.stop)
    (hb : vma.offset.toNat + (vma.stop - vma.start).toNat ≤ 2 ^ 64) {off : Word} {a : Addr} :
    vma.addrOf off = some a ↔ vma.Contains a ∧ vma.offsetAt a = off := by
  unfold addrOf Contains offsetAt
  constructor
  · intro h
    split_ifs at h with hoff
    cases h
    refine ⟨⟨?_, ?_⟩, ?_⟩ <;> bv_omega
  · rintro ⟨⟨hstart, hstop⟩, rfl⟩
    rw [if_pos (by constructor <;> bv_omega)]
    congr 1
    bv_omega

namespace Loaded

variable {pageSize : ℕ} {file : ElfFile} {bias : Word} {vmas : List Vma}

/-- The mapping at the runtime address of a link-time address. -/
theorem exists_vma (h : Loaded pageSize file bias vmas) {v : Addr} {phdr : Phdr}
    (hv : file.segmentAt pageSize v = some phdr) :
    ∃ vma ∈ vmas, vma.Contains (bias + v) ∧ phdr.offsetAt v = vma.offsetAt (bias + v) ∧
      phdr.executable = vma.exec ∧ phdr.writable = vma.write := by
  obtain ⟨vma, hmem, hcontains⟩ := h.complete v phdr hv
  obtain ⟨phdr', hphdr', hmapped⟩ := h.mapped vma hmem _ hcontains
  rw [add_sub_cancel_left] at hphdr' hmapped
  obtain rfl : phdr = phdr' := Option.some.inj (hv.symm.trans hphdr')
  exact ⟨vma, hmem, hcontains, hmapped⟩

/-- **Where a uprobe is hit**: wherever a segment loads its offset as code. -/
theorem mem_uprobeAddrs (h : Loaded pageSize file bias vmas) {off : Word} {a : Addr} :
    a ∈ uprobeAddrs vmas off ↔
      ∃ phdr ∈ file.codeSegments pageSize off, a = bias + phdr.addrOf off := by
  simp only [uprobeAddrs, List.mem_filterMap, List.mem_filter, decide_eq_true_eq,
    ElfFile.mem_codeSegments]
  constructor
  · rintro ⟨vma, ⟨hmem, hexec, hwrite⟩, haddr⟩
    obtain ⟨hcontains, hoff⟩ :=
      (Vma.addrOf_eq_some (h.nonempty vma hmem) (h.bounded vma hmem)).1 haddr
    obtain ⟨phdr, hphdr, hoffset, hx, hw⟩ := h.mapped vma hmem a hcontains
    have hv : a - bias = phdr.addrOf off := Phdr.offsetAt_eq_iff.1 (hoffset.trans hoff)
    rw [hv] at hphdr
    refine ⟨phdr, ⟨hphdr, hx.trans hexec, ?_⟩, ?_⟩
    · rw [hw]
      simpa using hwrite
    · rw [← hv, add_sub_cancel]
  · rintro ⟨phdr, ⟨hphdr, hexec, hwrite⟩, rfl⟩
    obtain ⟨vma, hmem, hcontains, hoffset, hx, hw⟩ := h.exists_vma hphdr
    refine ⟨vma, ⟨hmem, hx ▸ hexec, by simp [← hw, hwrite]⟩,
      (Vma.addrOf_eq_some (h.nonempty vma hmem) (h.bounded vma hmem)).2 ⟨hcontains, ?_⟩⟩
    rw [← hoffset, Phdr.offsetAt_addrOf]

/-- The lines of the mappings. -/
theorem mappedAt (h : Loaded pageSize file bias vmas) :
    MappedAt pageSize file bias (vmas.map Vma.toMapsLine) where
  nonempty := List.forall_mem_map.2 h.nonempty
  bounded := List.forall_mem_map.2 h.bounded
  mapped := by
    rw [List.forall_mem_map]
    intro vma hmem a ha
    obtain ⟨phdr, hphdr, hoffset, -⟩ := h.mapped vma hmem a ha
    exact ⟨phdr, hphdr, hoffset⟩
  complete v phdr hv := by
    obtain ⟨vma, hmem, hcontains⟩ := h.complete v phdr hv
    exact ⟨vma.toMapsLine, List.mem_map_of_mem hmem, hcontains⟩
  monotone := h.monotone

/-- The first mapping from offset `0` on. -/
theorem find?_offset (h : Loaded pageSize file bias vmas) :
    (vmas.find? fun vma => vma.offset = 0).map (·.start) =
      (file.headerAddr pageSize).map (bias + ·) := by
  cases hfind : vmas.find? fun vma => vma.offset = 0 with
  | none =>
    have hown : ∀ line ∈ vmas.map Vma.toMapsLine, line.offset ≠ 0 := by
      rw [List.forall_mem_map]
      exact fun vma hmem => by simpa using List.find?_eq_none.1 hfind vma hmem
    rw [h.mappedAt.headerAddr_eq_none hown]
    rfl
  | some vma =>
    obtain ⟨h0, before, after, rfl, hbefore⟩ := List.find?_eq_some_iff_append.1 hfind
    have hmem : vma.toMapsLine ∈ (before ++ vma :: after).map Vma.toMapsLine :=
      List.mem_map_of_mem (by simp)
    have hle : ∀ line ∈ (before ++ vma :: after).map Vma.toMapsLine, line.offset = 0 →
        vma.start ≤ line.start := by
      rw [List.forall_mem_map]
      intro vma' hmem' h0'
      rcases List.mem_append.1 hmem' with hmem' | hmem'
      · exact absurd h0' (by simpa using hbefore vma' hmem')
      · rcases List.mem_cons.1 hmem' with rfl | hmem'
        · exact BitVec.le_refl _
        · have hsep := List.rel_of_pairwise_cons (List.pairwise_append.1 h.ordered).2.1 hmem'
          have hne := h.nonempty vma (by simp)
          bv_omega
    rw [h.mappedAt.headerAddr_eq_some hmem (of_decide_eq_true h0) hle, Option.map_some,
      Option.map_some, add_sub_cancel]

/-- The address `get_load_base` finds, when the executable's path occurs in the lines of its own
mappings only. -/
theorem getLoadBase_eq (h : Loaded pageSize file bias vmas) {maps : List MapsLine} {exePath : Text}
    (hmaps : (maps.filter fun line => exePath <:+: line.path) = vmas.map Vma.toMapsLine) :
    getLoadBase maps exePath = ((file.headerAddr pageSize).map (bias + ·)).getD 0 := by
  have hfind : (maps.find? fun line => exePath <:+: line.path ∧ line.offset = 0) =
      (vmas.find? fun vma => vma.offset = 0).map Vma.toMapsLine := by
    have hlines : (maps.find? fun line => exePath <:+: line.path ∧ line.offset = 0) =
        (vmas.map Vma.toMapsLine).find? fun line => line.offset = 0 := by
      rw [← hmaps, List.find?_filter]
      simp
    rw [hlines, List.find?_map]
    rfl
  rw [← h.find?_offset, getLoadBase, hfind]
  cases vmas.find? fun vma => vma.offset = 0 <;> rfl

end Loaded

end Uatu
