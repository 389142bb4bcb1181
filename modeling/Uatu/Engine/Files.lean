import Uatu.Elf.Bytes
import Uatu.Elf.Maps
import Uatu.Engine.Slide

/-!
# The slide from the files

`get_aslr_slide` has nothing to go by but the bytes of the executable and the text of
`/proc/<pid>/maps`. Of a file with its program headers and of the text that the kernel prints, the
difference that is computed is the load bias exactly if no other mapping below is taken for the
executable (`slide_files`).
-/

namespace Uatu

open LittleEndian

/-! ## The headers of a file -/

namespace Elf64Ehdr.Heads

variable {ehdr : Elf64Ehdr} {phdrs : List Elf64Phdr} {file : List Byte}

theorem pread_phdr_file (h : ehdr.Heads phdrs file) {i : ℕ} {phdr : Elf64Phdr}
    (hi : phdrs[i]? = some phdr) :
    pread file 56 (ehdr.phdrOffset i) = some phdr.toBytes := by
  have hlength := (h.entry i phdr hi).length_le
  have hread := h.pread_phdr hi file.length
  rw [Elf64Phdr.length_toBytes, List.length_drop] at hlength
  rwa [List.take_length, if_pos (by omega)] at hread

theorem phdrsFrom_eq (h : ehdr.Heads phdrs file) (n i : ℕ) (hn : n + i = phdrs.length) :
    phdrsFrom file ehdr n i = phdrs.drop i := by
  induction n generalizing i with
  | zero => rw [phdrsFrom, List.drop_eq_nil_of_le (by omega)]
  | succ n ih =>
    have hlt : i < phdrs.length := by omega
    have hparse := Elf64Phdr.ofBytes_toBytes phdrs[i] []
    rw [List.append_nil] at hparse
    rw [phdrsFrom, h.pread_phdr_file (List.getElem?_eq_getElem hlt),
      List.drop_eq_getElem_cons hlt]
    simp only [hparse, ih (i + 1) (by omega)]

/-- All of the program headers are read. -/
theorem ofBytes_eq (h : ehdr.Heads phdrs file) :
    ElfFile.ofBytes (some file) = ⟨true, phdrs.map (·.toPhdr)⟩ := by
  have hlength := h.header.length_le
  have hdrop : ehdr.toBytes <+: file.drop 0 := h.header
  have hheader := pread_take hdrop (List.ne_nil_of_length_pos (by simp)) file.length
  rw [Elf64Ehdr.length_toBytes] at hlength hheader
  rw [List.take_length, if_pos (by omega), Nat.cast_zero] at hheader
  have hparse := Elf64Ehdr.ofBytes_toBytes ehdr []
  rw [List.append_nil] at hparse
  have hphdrs := h.phdrsFrom_eq phdrs.length 0 (Nat.add_zero _)
  rw [List.drop_zero] at hphdrs
  rw [ElfFile.ofBytes, hheader]
  simp only [hparse, h.count, hphdrs, decide_eq_true h.magic]

end Elf64Ehdr.Heads

/-! ## The slide -/

/-- `get_aslr_slide`, from the bytes of the executable and the text of `/proc/<pid>/maps`. -/
def aslrSlideOf (file : Option (List Byte)) (maps exePath : Text) : Word :=
  getLoadBaseText maps exePath - elfMinVaddrBytes file

/-- On what the kernel prints, it is the one of what the headers and the lines say. -/
theorem aslrSlideOf_eq {impl : Impl} {file : Option (List Byte)} {entries : List MapsEntry}
    (hpath : impl.exePath.head? = some '/') (helf : impl.elf = ElfFile.ofBytes file)
    (hmaps : impl.maps = entries.map (·.toMapsLine)) :
    aslrSlideOf file (printMaps entries) impl.exePath = impl.getAslrSlide := by
  rw [aslrSlideOf, Impl.getAslrSlide, helf, hmaps, elfMinVaddrBytes_eq, getLoadBaseText_eq hpath]

/-- The process, as the two files show it. -/
structure Impl.ShownBy (impl : Impl) (ehdr : Elf64Ehdr) (phdrs : List Elf64Phdr)
    (file : List Byte) (entries : List MapsEntry) : Prop where
  heads : ehdr.Heads phdrs file
  elf : impl.elf = ⟨true, phdrs.map (·.toPhdr)⟩
  maps : impl.maps = entries.map (·.toMapsLine)
  absolute : impl.exePath.head? = some '/'

/-- **The slide that is computed from the files** of a usual executable is the load bias exactly if
nothing below it is taken for it. -/
theorem slide_files {pageSize : ℕ} {impl : Impl} {ehdr : Elf64Ehdr} {phdrs : List Elf64Phdr}
    {file : List Byte} {entries : List MapsEntry} {own : List MapsLine} {bias : Word} {phdr : Phdr}
    (hshown : impl.ShownBy ehdr phdrs file entries) (hlisting : impl.Listing own)
    (hm : MappedAt pageSize impl.elf bias own) (husual : impl.elf.Usual pageSize phdr) :
    aslrSlideOf (some file) (printMaps entries) impl.exePath = bias ↔
      impl.impostors own = [] := by
  have hheader := husual.headerAddr
  have helf := hshown.elf.trans hshown.heads.ofBytes_eq.symm
  rw [aslrSlideOf_eq hshown.absolute helf hshown.maps, Impl.getAslrSlide, husual.elfMinVaddr,
    hlisting.getLoadBase_eq hm, hheader]
  cases himpostors : impl.impostors own with
  | nil =>
    have hbias : bias + phdr.pVaddr - phdr.pVaddr = bias := add_sub_cancel_right ..
    exact iff_of_true hbias rfl
  | cons line lines =>
    refine iff_of_false (fun hslide => ?_) (List.cons_ne_nil line lines)
    -- the executable is mapped there itself
    obtain ⟨line', hmem, h0, hstart⟩ :=
      hm.exists_line_of_loadsHeader (ElfFile.headerAddr_eq_some_iff.1 hheader).1
    have hline : line ∈ impl.impostors own := himpostors ▸ List.mem_cons_self ..
    have hlt := (Impl.mem_impostors.1 hline).2.2.2 line' hmem h0
    rw [hstart, ← sub_eq_iff_eq_add.1 hslide] at hlt
    exact BitVec.lt_irrefl _ hlt

/-! ## A file beside others -/

open ElfFile

/-- The program headers of the file of two segments, with the fields that nothing reads. -/
def phdrsApp : List Elf64Phdr := [⟨headers 0, 0, 4096⟩, ⟨code 0x1000, 0x1000, 4096⟩]

/-- The lines of its process. -/
def entriesApp (below : List MapsEntry) : List MapsEntry :=
  below ++ [.app 0x555555554000,
    { MapsEntry.app 0x555555555000 with stop := 0x555555557000, offset := 0x1000 }]

theorem shownBy_beside (below : List MapsEntry) :
    (Impl.beside (below.map (·.toMapsLine)) []).ShownBy .two phdrsApp
      (Elf64Ehdr.two.image phdrsApp) (entriesApp below) where
  heads := Elf64Ehdr.heads_image (by decide) rfl rfl rfl
  elf := rfl
  maps := by
    rw [entriesApp, List.map_append]
    change below.map (·.toMapsLine) ++ appLines ++ [] = _
    rw [List.append_nil]
    rfl
  absolute := rfl

theorem usual_app : (ElfFile.app 0x1000).Usual 4096 (headers 0) where
  readable := rfl
  split := ⟨[], [code 0x1000], rfl, by decide, by decide⟩
  load := rfl
  pOffset := rfl
  pFilesz := by decide

theorem slide_files_app :
    aslrSlideOf (some (Elf64Ehdr.two.image phdrsApp)) (printMaps (entriesApp []))
      "/bin/app".toList = 0x555555554000 ∧
    aslrSlideOf (some (Elf64Ehdr.two.image phdrsApp)) (printMaps (entriesApp [.app 0x10000]))
      "/bin/app".toList ≠ 0x555555554000 := by
  have hfiles : ∀ below : List MapsEntry,
      (Impl.beside (below.map (·.toMapsLine)) []).Listing appLines →
      (aslrSlideOf (some (Elf64Ehdr.two.image phdrsApp)) (printMaps (entriesApp below))
        "/bin/app".toList = 0x555555554000 ↔
        (Impl.beside (below.map (·.toMapsLine)) []).impostors appLines = []) :=
    fun below hlisting =>
      slide_files (shownBy_beside below) hlisting (mappedAt_beside _ _) usual_app
  constructor
  · exact (hfiles [] ⟨by decide, by decide, by decide, by decide⟩).2 (by decide)
  · exact mt (hfiles [.app 0x10000] ⟨by decide, by decide, by decide, by decide⟩).1 (by decide)

end Uatu
