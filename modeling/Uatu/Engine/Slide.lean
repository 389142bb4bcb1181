import Uatu.Engine.ProbePoints

/-!
# The slide and the load bias

`get_aslr_slide` subtracts what one scan finds in the program headers from what another finds in
`/proc/<pid>/maps`, where lines are told by the executable's path occurring in them. The lines of
other files can have it, too. `slideRight_iff` says when the difference is the load bias.
-/

namespace Uatu

variable {pageSize : ℕ} {impl : Impl} {bias : Word} {own : List MapsLine}

/-! ## The listing -/

/-- `/proc/<pid>/maps` lists the mappings of the executable, with any others, in the order of their
addresses. -/
structure Impl.Listing (impl : Impl) (own : List MapsLine) : Prop where
  ordered : impl.maps.Pairwise fun line line' => line.stop ≤ line'.start
  nonempty : ∀ line ∈ impl.maps, line.start < line.stop
  mem : ∀ line ∈ own, line ∈ impl.maps
  path : ∀ line ∈ own, line.path = impl.exePath

/-- The lines that are taken for the first one of the executable: those of other mappings below it
from offset `0` on, with a path in which the executable's occurs. -/
def Impl.impostors (impl : Impl) (own : List MapsLine) : List MapsLine :=
  impl.maps.filter fun line => (impl.exePath <:+: line.path ∧ line.offset = 0) ∧
    line ∉ own ∧ ∀ line' ∈ own, line'.offset = 0 → line.start < line'.start

theorem Impl.mem_impostors {line : MapsLine} : line ∈ impl.impostors own ↔
    line ∈ impl.maps ∧ (impl.exePath <:+: line.path ∧ line.offset = 0) ∧ line ∉ own ∧
      ∀ line' ∈ own, line'.offset = 0 → line.start < line'.start := by
  rw [impostors, List.mem_filter, decide_eq_true_eq]

/-- The slide is the load bias, so it takes every function to its runtime address. -/
structure Impl.SlideRight (impl : Impl) (bias : Word) : Prop where
  slide : impl.getAslrSlide = bias
  runtime : ∀ finder, impl.finder = .ok finder → ∀ fi ∈ finder.cache,
    fi.address + impl.getAslrSlide = fi.address + bias

theorem Impl.slideRight_iff_slide : impl.SlideRight bias ↔ impl.getAslrSlide = bias :=
  ⟨SlideRight.slide, fun h => ⟨h, fun _ _ _ _ => by rw [h]⟩⟩

namespace Impl.Listing

variable {p : MapsLine → Bool} {line line' : MapsLine}

/-- The first line with a property is the lowest one. -/
theorem eq_or_lt_of_find? (h : impl.Listing own) (hfind : impl.maps.find? p = some line)
    (hmem : line' ∈ impl.maps) (hp : p line' = true) :
    line' = line ∨ line.start < line'.start := by
  obtain ⟨-, before, after, hmaps, hbefore⟩ := List.find?_eq_some_iff_append.1 hfind
  have hordered := h.ordered
  have hne := h.nonempty line (List.mem_of_find?_eq_some hfind)
  rw [hmaps] at hordered hmem
  rcases List.mem_append.1 hmem with hmem | hmem
  · have hnot := hbefore line' hmem
    rw [hp] at hnot
    cases hnot
  · rcases List.mem_cons.1 hmem with rfl | hmem
    · exact .inl rfl
    · have hsep := List.rel_of_pairwise_cons (List.pairwise_append.1 hordered).2.1 hmem
      exact .inr (by bv_omega)

/-- A line of the executable from offset `0` on is one of those that are looked for. -/
theorem infix_path (h : impl.Listing own) (hmem : line ∈ own) (h0 : line.offset = 0) :
    impl.exePath <:+: line.path ∧ line.offset = 0 :=
  ⟨h.path line hmem ▸ List.infix_refl _, h0⟩

/-- What is found is no higher than the lines of the executable from offset `0` on. -/
theorem le_of_find? (h : impl.Listing own)
    (hfind : (impl.maps.find? fun line => impl.exePath <:+: line.path ∧ line.offset = 0) =
      some line) : ∀ line' ∈ own, line'.offset = 0 → line' = line ∨ line.start < line'.start :=
  fun line' hmem h0 =>
    h.eq_or_lt_of_find? hfind (h.mem line' hmem) (decide_eq_true (h.infix_path hmem h0))

/-- If a line of the executable is found, then there is no impostor. -/
theorem impostors_eq_nil (h : impl.Listing own)
    (hfind : (impl.maps.find? fun line => impl.exePath <:+: line.path ∧ line.offset = 0) =
      some line) (hown : line ∈ own) : impl.impostors own = [] := by
  have hfound := List.find?_some hfind
  have hline := of_decide_eq_true hfound
  rw [List.eq_nil_iff_forall_not_mem]
  intro line' hline'
  obtain ⟨hmem, hp, hnot, hbelow⟩ := mem_impostors.1 hline'
  rcases h.eq_or_lt_of_find? hfind hmem (decide_eq_true hp) with rfl | hlt
  · exact hnot hown
  · have hlt' := hbelow line hown hline.2
    bv_omega

/-- If another line is found, then it is the first impostor. -/
theorem head?_impostors (h : impl.Listing own)
    (hfind : (impl.maps.find? fun line => impl.exePath <:+: line.path ∧ line.offset = 0) =
      some line) (hown : line ∉ own) : (impl.impostors own).head? = some line := by
  have hbelow : ∀ line' ∈ own, line'.offset = 0 → line.start < line'.start := by
    intro line' hmem' h0
    rcases h.le_of_find? hfind line' hmem' h0 with rfl | hlt
    · exact absurd hmem' hown
    · exact hlt
  obtain ⟨hline, before, after, hmaps, hbefore⟩ := List.find?_eq_some_iff_append.1 hfind
  have hnil : before.filter (fun line => (impl.exePath <:+: line.path ∧ line.offset = 0) ∧
      line ∉ own ∧ ∀ line' ∈ own, line'.offset = 0 → line.start < line'.start) = [] := by
    refine List.filter_eq_nil_iff.2 fun line' hmem' hline' => ?_
    have hnot := hbefore line' hmem'
    rw [decide_eq_true (of_decide_eq_true hline').1] at hnot
    cases hnot
  rw [impostors, hmaps, List.filter_append, hnil, List.nil_append, List.filter_cons,
    if_pos (decide_eq_true ⟨of_decide_eq_true hline, hown, hbelow⟩)]
  rfl

/-- The line that is found is the first impostor, if there is one, and the first line of the
executable otherwise. -/
theorem getLoadBase_eq (h : impl.Listing own) (hm : MappedAt pageSize impl.elf bias own) :
    getLoadBase impl.maps impl.exePath =
      match (impl.impostors own).head? with
      | some line => line.start
      | none => ((impl.elf.headerAddr pageSize).map (bias + ·)).getD 0 := by
  rw [getLoadBase]
  cases hfind : impl.maps.find? fun line => impl.exePath <:+: line.path ∧ line.offset = 0 with
  | none =>
    have hnone := List.find?_eq_none.1 hfind
    have hnil : impl.impostors own = [] := by
      rw [List.eq_nil_iff_forall_not_mem]
      intro line hline
      obtain ⟨hmem, hp, -⟩ := mem_impostors.1 hline
      exact hnone line hmem (decide_eq_true hp)
    have hown : ∀ line ∈ own, line.offset ≠ 0 := fun line hmem h0 =>
      hnone line (h.mem line hmem) (decide_eq_true (h.infix_path hmem h0))
    rw [hnil, hm.headerAddr_eq_none hown]
    rfl
  | some line =>
    by_cases hown : line ∈ own
    · have hfound := List.find?_some hfind
      have hline := of_decide_eq_true hfound
      have hle : ∀ line' ∈ own, line'.offset = 0 → line.start ≤ line'.start := by
        intro line' hmem' h0
        rcases h.le_of_find? hfind line' hmem' h0 with rfl | hlt
        · exact BitVec.le_refl _
        · exact BitVec.le_of_lt hlt
      rw [h.impostors_eq_nil hfind hown, hm.headerAddr_eq_some hown hline.2 hle]
      change line.start = bias + (line.start - bias)
      rw [add_sub_cancel]
    · rw [h.head?_impostors hfind hown]

end Impl.Listing

/-! ## The slide -/

/-- What the program headers say of the start of the file: the first one to load from offset `0` on
is at this link-time address, or none can be read, and the address is `0`. -/
def ElfFile.DeclaresStart (file : ElfFile) (v : Addr) : Prop :=
  (file.readable = true ∧ ∃ before phdr after, file.phdrs = before ++ phdr :: after ∧
      (∀ phdr' ∈ before, ¬ (phdr'.pType = PT_LOAD ∧ phdr'.pOffset = 0)) ∧
      phdr.pType = PT_LOAD ∧ phdr.pOffset = 0 ∧ phdr.pVaddr = v) ∨
    ((file.readable = true → ∀ phdr ∈ file.phdrs, ¬ (phdr.pType = PT_LOAD ∧ phdr.pOffset = 0)) ∧
      v = 0)

theorem ElfFile.declaresStart_iff {file : ElfFile} {v : Addr} :
    file.DeclaresStart v ↔ elfMinVaddr file = v := by
  constructor
  · rintro (⟨hreadable, before, phdr, after, hphdrs, hbefore, hload, h0, rfl⟩ | ⟨hnone, rfl⟩)
    · have hfind : file.phdrs.find? (fun phdr => phdr.pType = PT_LOAD ∧ phdr.pOffset = 0) =
          some phdr :=
        List.find?_eq_some_iff_append.2 ⟨decide_eq_true ⟨hload, h0⟩, before, after, hphdrs,
          fun phdr' hmem => by rw [decide_eq_false (hbefore phdr' hmem)]; rfl⟩
      rw [elfMinVaddr, if_pos hreadable, hfind]
    · rw [elfMinVaddr]
      split_ifs with hreadable
      · have hfind : file.phdrs.find? (fun phdr => phdr.pType = PT_LOAD ∧ phdr.pOffset = 0) =
            none :=
          List.find?_eq_none.2 fun phdr hmem hphdr =>
            hnone hreadable phdr hmem (of_decide_eq_true hphdr)
        rw [hfind]
      · rfl
  · rintro rfl
    rw [elfMinVaddr]
    split_ifs with hreadable
    · cases hfind : file.phdrs.find? fun phdr => phdr.pType = PT_LOAD ∧ phdr.pOffset = 0 with
      | none =>
        exact .inr ⟨fun _ phdr hmem hphdr =>
          List.find?_eq_none.1 hfind phdr hmem (decide_eq_true hphdr), rfl⟩
      | some phdr =>
        obtain ⟨hphdr, before, after, hphdrs, hbefore⟩ := List.find?_eq_some_iff_append.1 hfind
        have hphdr := of_decide_eq_true hphdr
        have hnone : ∀ phdr' ∈ before, ¬ (phdr'.pType = PT_LOAD ∧ phdr'.pOffset = 0) :=
          fun phdr' hmem => of_decide_eq_false (Bool.not_eq_true' _ ▸ hbefore phdr' hmem)
        exact .inl ⟨hreadable, before, phdr, after, hphdrs, hnone, hphdr.1, hphdr.2, rfl⟩
    · exact .inr ⟨fun hreadable' => absurd hreadable' hreadable, rfl⟩

/-- The program headers say of the start of the file what the listing does. -/
structure Impl.BasesAgree (impl : Impl) (pageSize : ℕ) (bias : Word) (own : List MapsLine) :
    Prop where
  /-- There is no impostor, or the first one is by chance at the right address. -/
  impostor : ∀ line ∈ (impl.impostors own).head?, impl.elf.DeclaresStart (line.start - bias)
  /-- The start of the file is where the headers say, and at no lower address. -/
  header : impl.impostors own = [] →
    ∀ v ∈ impl.elf.headerAddr pageSize, impl.elf.DeclaresStart v
  /-- If the start of the file is not loaded, the right address is `0` by chance. -/
  unloaded : impl.impostors own = [] → impl.elf.headerAddr pageSize = none →
    impl.elf.DeclaresStart (-bias)

/-- **The slide is the load bias** if nothing is taken for the executable and the program headers
say where the start of the file is, and only then, but for chance. -/
theorem slideRight_iff (h : impl.Listing own) (hm : MappedAt pageSize impl.elf bias own) :
    impl.SlideRight bias ↔ impl.BasesAgree pageSize bias own := by
  have hslide : impl.SlideRight bias ↔
      impl.elf.DeclaresStart (getLoadBase impl.maps impl.exePath - bias) := by
    rw [Impl.slideRight_iff_slide, Impl.getAslrSlide, ElfFile.declaresStart_iff, sub_eq_iff_eq_add,
      eq_sub_iff_add_eq', eq_comm]
  rw [hslide, h.getLoadBase_eq hm]
  cases himpostors : impl.impostors own with
  | nil =>
    have hnone : ∀ line ∈ (impl.impostors own).head?,
        impl.elf.DeclaresStart (line.start - bias) := by
      rw [himpostors]
      intro line hline
      cases hline
    cases hheader : impl.elf.headerAddr pageSize with
    | none =>
      change impl.elf.DeclaresStart (0 - bias) ↔ _
      rw [zero_sub]
      constructor
      · intro hstart
        refine ⟨hnone, fun _ v hv => ?_, fun _ _ => hstart⟩
        rw [hheader] at hv
        cases hv
      · exact fun hagree => hagree.unloaded himpostors hheader
    | some v =>
      change impl.elf.DeclaresStart (bias + v - bias) ↔ _
      rw [add_sub_cancel_left]
      constructor
      · intro hstart
        refine ⟨hnone, fun _ v' hv' => ?_, fun _ hnot => ?_⟩
        · rw [hheader] at hv'
          exact Option.some.inj hv' ▸ hstart
        · rw [hheader] at hnot
          cases hnot
      · exact fun hagree => hagree.header himpostors v hheader
  | cons line lines =>
    change impl.elf.DeclaresStart (line.start - bias) ↔ _
    constructor
    · intro hstart
      refine ⟨fun line' hline' => ?_, fun hnil => ?_, fun hnil => ?_⟩
      · rw [himpostors] at hline'
        exact Option.some.inj hline' ▸ hstart
      all_goals
        rw [himpostors] at hnil
        cases hnil
    · intro hagree
      apply hagree.impostor
      rw [himpostors]
      rfl

/-! ## A file beside others -/

open ElfFile

/-- The lines of the file of two segments. -/
def appLines : List MapsLine := (appVmas 0x1000 0x555555554000).map Vma.toMapsLine

/-- A process of it, which has these mappings below its own, and others above. -/
def Impl.beside (below above : List MapsLine) : Impl :=
  { Impl.app 0x1000 0x555555554000 0x1234 with maps := below ++ appLines ++ above }

/-- A page that is mapped from offset `0` of a file on. -/
def pageLine (start : Addr) (path : Text) : MapsLine := ⟨start, start + 0x1000, 0, path⟩

theorem mappedAt_beside (below above : List MapsLine) :
    MappedAt 4096 (Impl.beside below above).elf 0x555555554000 appLines :=
  (loaded_app (by decide) (by decide) (by decide)).mappedAt

/-- With an anonymous page below, and another file of such a name above. -/
theorem slideRight_beside :
    (Impl.beside [pageLine 0x10000 []] [pageLine 0x7ffff7ff0000 "/bin/app.data".toList]).SlideRight
      0x555555554000 := by
  have hlisting : (Impl.beside [pageLine 0x10000 []]
      [pageLine 0x7ffff7ff0000 "/bin/app.data".toList]).Listing appLines :=
    ⟨by decide, by decide, by decide, by decide⟩
  have hheader : (ElfFile.app 0x1000).headerAddr 4096 = some 0 := by decide
  refine (slideRight_iff hlisting (mappedAt_beside _ _)).2
    ⟨fun line hline => ?_, fun _ v hv => ?_, fun _ hnone => ?_⟩
  · have hnil : (Impl.beside [pageLine 0x10000 []]
        [pageLine 0x7ffff7ff0000 "/bin/app.data".toList]).impostors appLines = [] := by decide
    rw [hnil] at hline
    cases hline
  · exact ElfFile.declaresStart_iff.2 (Option.some.inj (hheader.symm.trans hv))
  · exact absurd (hheader.symm.trans hnone) (by decide)

/-- With the other file below, its page is taken for the executable's. -/
theorem not_slideRight_beside :
    let impl := Impl.beside [pageLine 0x10000 "/bin/app.data".toList] []
    impl.Listing appLines ∧ MappedAt 4096 impl.elf 0x555555554000 appLines ∧
    impl.getAslrSlide = 0x10000 ∧ ¬ impl.SlideRight 0x555555554000 := by
  refine ⟨⟨by decide, by decide, by decide, by decide⟩, mappedAt_beside _ _, by decide, ?_⟩
  rw [Impl.slideRight_iff_slide]
  decide

end Uatu
