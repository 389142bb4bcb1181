import Uatu.Elf.Image
import Uatu.Foundations.LittleEndian
import Mathlib.Tactic.SplitIfs

/-!
# The program headers in the file

`elf_min_vaddr` of `src/engine/attach_engine.cpp` as it reads the bytes of the executable with
`pread`. On whatever bytes it is the function of `Elf/Image` on the headers that can be read
(`elfMinVaddrBytes_eq`). Of a file with an ELF header and its table the headers are read back, and
of one that is cut off those that are left (`elfMinVaddrBytes_truncated`).
-/

namespace Uatu

open LittleEndian

/-- `Elf64_Ehdr`. -/
structure Elf64Ehdr where
  eIdent : BitVec 128
  eType : BitVec 16
  eMachine : BitVec 16
  eVersion : BitVec 32
  eEntry : Addr
  ePhoff : Word
  eShoff : Word
  eFlags : BitVec 32
  eEhsize : BitVec 16
  ePhentsize : BitVec 16
  ePhnum : BitVec 16
  eShentsize : BitVec 16
  eShnum : BitVec 16
  eShstrndx : BitVec 16
  deriving DecidableEq

/-- `Elf64_Phdr`. -/
structure Elf64Phdr extends Phdr where
  pPaddr : Addr
  pAlign : Word
  deriving DecidableEq

/-! ## Layouts -/

namespace Elf64Ehdr

def ofBytes (bs : List Byte) : Elf64Ehdr where
  eIdent := word 128 bs 0
  eType := word 16 bs 16
  eMachine := word 16 bs 18
  eVersion := word 32 bs 20
  eEntry := word 64 bs 24
  ePhoff := word 64 bs 32
  eShoff := word 64 bs 40
  eFlags := word 32 bs 48
  eEhsize := word 16 bs 52
  ePhentsize := word 16 bs 54
  ePhnum := word 16 bs 56
  eShentsize := word 16 bs 58
  eShnum := word 16 bs 60
  eShstrndx := word 16 bs 62

def toBytes (ehdr : Elf64Ehdr) : List Byte :=
  put ehdr.eIdent ++ (put ehdr.eType ++ (put ehdr.eMachine ++ (put ehdr.eVersion ++
    (put ehdr.eEntry ++ (put ehdr.ePhoff ++ (put ehdr.eShoff ++ (put ehdr.eFlags ++
      (put ehdr.eEhsize ++ (put ehdr.ePhentsize ++ (put ehdr.ePhnum ++ (put ehdr.eShentsize ++
        (put ehdr.eShnum ++ put ehdr.eShstrndx))))))))))))

@[simp] theorem length_toBytes (ehdr : Elf64Ehdr) : ehdr.toBytes.length = 64 := by
  simp [toBytes]

theorem ofBytes_toBytes (ehdr : Elf64Ehdr) (rest : List Byte) :
    ofBytes (ehdr.toBytes ++ rest) = ehdr := by
  simp (disch := decide) only [ofBytes, toBytes, List.append_assoc, word_put_append,
    word_put_append_right, Nat.reduceDiv, Nat.reduceSub]

/-- `memcmp(ehdr.e_ident, ELFMAG, SELFMAG) == 0`. -/
def HasMagic (ehdr : Elf64Ehdr) : Prop := (put ehdr.eIdent).take 4 = [0x7f, 0x45, 0x4c, 0x46]

instance : DecidablePred HasMagic := fun _ => inferInstanceAs (Decidable (_ = _))

end Elf64Ehdr

namespace Elf64Phdr

def ofBytes (bs : List Byte) : Elf64Phdr where
  pType := word 32 bs 0
  pFlags := word 32 bs 4
  pOffset := word 64 bs 8
  pVaddr := word 64 bs 16
  pPaddr := word 64 bs 24
  pFilesz := word 64 bs 32
  pMemsz := word 64 bs 40
  pAlign := word 64 bs 48

def toBytes (phdr : Elf64Phdr) : List Byte :=
  put phdr.pType ++ (put phdr.pFlags ++ (put phdr.pOffset ++ (put phdr.pVaddr ++
    (put phdr.pPaddr ++ (put phdr.pFilesz ++ (put phdr.pMemsz ++ put phdr.pAlign))))))

@[simp] theorem length_toBytes (phdr : Elf64Phdr) : phdr.toBytes.length = 56 := by
  simp [toBytes]

theorem ofBytes_toBytes (phdr : Elf64Phdr) (rest : List Byte) :
    ofBytes (phdr.toBytes ++ rest) = phdr := by
  simp (disch := decide) only [ofBytes, toBytes, List.append_assoc, word_put_append,
    word_put_append_right, Nat.reduceDiv, Nat.reduceSub]

end Elf64Phdr

/-- The segment that is loaded from the start of the file on. -/
def Phdr.LoadsStart (phdr : Phdr) : Prop := phdr.pType = PT_LOAD ∧ phdr.pOffset = 0

instance : DecidablePred Phdr.LoadsStart := fun _ => inferInstanceAs (Decidable (_ ∧ _))

theorem elfMinVaddr_cons (phdr : Phdr) (phdrs : List Phdr) :
    elfMinVaddr ⟨true, phdr :: phdrs⟩ =
      if phdr.LoadsStart then phdr.pVaddr else elfMinVaddr ⟨true, phdrs⟩ := by
  by_cases h : phdr.LoadsStart
  · obtain ⟨htype, hoffset⟩ := h
    simp [elfMinVaddr, Phdr.LoadsStart, htype, hoffset]
  · have hnot : decide (phdr.pType = PT_LOAD ∧ phdr.pOffset = 0) = false := decide_eq_false h
    simp only [if_neg h, elfMinVaddr, List.find?_cons, hnot]

/-! ## Reading -/

/-- `pread(fd, buf, n, off)`, if it returns `n`. -/
def pread (file : List Byte) (n : ℕ) (off : ℤ) : Option (List Byte) :=
  if off < 0 then none
  else
    let bs := (file.drop off.toNat).take n
    if bs.length = n then some bs else none

/-- The offset of a program header, an `off_t`. -/
def Elf64Ehdr.phdrOffset (ehdr : Elf64Ehdr) (i : ℕ) : ℤ :=
  (ehdr.ePhoff + BitVec.ofNat 64 i * ehdr.ePhentsize.zeroExtend 64).toInt

/-- The loop of `elf_min_vaddr` over the next `n` program headers from number `i` on. -/
def minVaddrLoop (file : List Byte) (ehdr : Elf64Ehdr) : ℕ → ℕ → Addr
  | 0, _ => 0
  | n + 1, i =>
    match pread file 56 (ehdr.phdrOffset i) with
    | none => 0
    | some bs =>
      let phdr := Elf64Phdr.ofBytes bs
      if phdr.LoadsStart then phdr.pVaddr else minVaddrLoop file ehdr n (i + 1)

/-- `elf_min_vaddr`, on the bytes of the file if it opens. -/
def elfMinVaddrBytes : Option (List Byte) → Addr
  | none => 0
  | some file =>
    match pread file 64 0 with
    | none => 0
    | some bs =>
      let ehdr := Elf64Ehdr.ofBytes bs
      if ehdr.HasMagic then minVaddrLoop file ehdr ehdr.ePhnum.toNat 0 else 0

/-- The next `n` program headers from number `i` on, up to the first that cannot be read. -/
def phdrsFrom (file : List Byte) (ehdr : Elf64Ehdr) : ℕ → ℕ → List Elf64Phdr
  | 0, _ => []
  | n + 1, i =>
    match pread file 56 (ehdr.phdrOffset i) with
    | none => []
    | some bs => Elf64Phdr.ofBytes bs :: phdrsFrom file ehdr n (i + 1)

/-- What `elf_min_vaddr` reads of a file. -/
def ElfFile.ofBytes : Option (List Byte) → ElfFile
  | none => ⟨false, []⟩
  | some file =>
    match pread file 64 0 with
    | none => ⟨false, []⟩
    | some bs =>
      let ehdr := Elf64Ehdr.ofBytes bs
      ⟨ehdr.HasMagic, (phdrsFrom file ehdr ehdr.ePhnum.toNat 0).map (·.toPhdr)⟩

theorem minVaddrLoop_eq (file : List Byte) (ehdr : Elf64Ehdr) (n i : ℕ) :
    minVaddrLoop file ehdr n i =
      elfMinVaddr ⟨true, (phdrsFrom file ehdr n i).map (·.toPhdr)⟩ := by
  induction n generalizing i with
  | zero => rfl
  | succ n ih =>
    rw [minVaddrLoop, phdrsFrom]
    cases pread file 56 (ehdr.phdrOffset i) with
    | none => rfl
    | some bs =>
      rw [List.map_cons, elfMinVaddr_cons, ← ih]

/-- On the bytes of any file it is the function of the headers that can be read. -/
theorem elfMinVaddrBytes_eq (file : Option (List Byte)) :
    elfMinVaddrBytes file = elfMinVaddr (ElfFile.ofBytes file) := by
  cases file with
  | none => rfl
  | some file =>
    rw [elfMinVaddrBytes, ElfFile.ofBytes]
    cases pread file 64 0 with
    | none => rfl
    | some bs =>
      by_cases h : (Elf64Ehdr.ofBytes bs).HasMagic
      · simp only [if_pos h, decide_eq_true h, minVaddrLoop_eq]
      · simp only [if_neg h, decide_eq_false h, elfMinVaddr, if_false, Bool.false_eq_true]

/-! ## Truncated files -/

theorem pread_natCast (file : List Byte) (n k : ℕ) :
    pread file n k = if k + n ≤ file.length ∨ n = 0 then some ((file.drop k).take n) else none := by
  rw [pread, if_neg (Int.natCast_nonneg k).not_gt, Int.toNat_natCast]
  have hlength : ((file.drop k).take n).length = n ↔ k + n ≤ file.length ∨ n = 0 := by
    rw [List.length_take, List.length_drop]
    omega
  simp only [hlength]

/-- What a record of the file gives when the file is cut off. -/
theorem pread_take {file bs : List Byte} {k : ℕ} (h : bs <+: file.drop k) (hne : bs ≠ [])
    (m : ℕ) : pread (file.take m) bs.length k = if k + bs.length ≤ m then some bs else none := by
  have hpos := List.length_pos_of_ne_nil hne
  have hle := h.length_le
  rw [List.length_drop] at hle
  have hcond : k + bs.length ≤ (file.take m).length ∨ bs.length = 0 ↔ k + bs.length ≤ m := by
    rw [List.length_take]
    omega
  rw [pread_natCast]
  simp only [hcond]
  split_ifs with hm
  · rw [List.drop_take, List.take_take, Nat.min_eq_left (by omega), ← List.prefix_iff_eq_take.1 h]
  · rfl

/-- The file starts with this ELF header, whose table holds these program headers. -/
structure Elf64Ehdr.Heads (ehdr : Elf64Ehdr) (phdrs : List Elf64Phdr) (file : List Byte) :
    Prop where
  magic : ehdr.HasMagic
  header : ehdr.toBytes <+: file
  count : ehdr.ePhnum.toNat = phdrs.length
  entry : ∀ i phdr, phdrs[i]? = some phdr →
    phdr.toBytes <+: file.drop (ehdr.ePhoff.toNat + i * ehdr.ePhentsize.toNat)
  /-- Offsets in the file are nonnegative as an `off_t`. -/
  size : file.length < 2 ^ 63

namespace Elf64Ehdr.Heads

variable {ehdr : Elf64Ehdr} {phdrs : List Elf64Phdr} {file : List Byte}

theorem phdrOffset_eq (h : ehdr.Heads phdrs file) {i : ℕ} {phdr : Elf64Phdr}
    (hi : phdrs[i]? = some phdr) :
    ehdr.phdrOffset i = (ehdr.ePhoff.toNat + i * ehdr.ePhentsize.toNat : ℕ) := by
  have hlt : i < 2 ^ 16 := by
    have hlength := (List.getElem?_eq_some_iff.1 hi).1
    have hcount := ehdr.ePhnum.isLt
    rw [h.count] at hcount
    omega
  have hle := (h.entry i phdr hi).length_le
  have hsize := h.size
  rw [Elf64Phdr.length_toBytes, List.length_drop] at hle
  have hmul : i * ehdr.ePhentsize.toNat < 2 ^ 63 := by omega
  have hnat : (ehdr.ePhoff + BitVec.ofNat 64 i * ehdr.ePhentsize.zeroExtend 64).toNat =
      ehdr.ePhoff.toNat + i * ehdr.ePhentsize.toNat := by
    have hentsize := ehdr.ePhentsize.isLt
    rw [BitVec.toNat_add, BitVec.toNat_mul, BitVec.toNat_ofNat, BitVec.toNat_setWidth,
      Nat.mod_eq_of_lt (by omega : i < 2 ^ 64),
      Nat.mod_eq_of_lt (by omega : ehdr.ePhentsize.toNat < 2 ^ 64),
      Nat.mod_eq_of_lt (by omega : i * ehdr.ePhentsize.toNat < 2 ^ 64),
      Nat.mod_eq_of_lt (by omega)]
  rw [phdrOffset, BitVec.toInt_eq_toNat_of_lt (by omega), hnat]

theorem pread_phdr (h : ehdr.Heads phdrs file) {i : ℕ} {phdr : Elf64Phdr}
    (hi : phdrs[i]? = some phdr) (m : ℕ) :
    pread (file.take m) 56 (ehdr.phdrOffset i) =
      if ehdr.ePhoff.toNat + i * ehdr.ePhentsize.toNat + 56 ≤ m then some phdr.toBytes
      else none := by
  have hread := pread_take (h.entry i phdr hi) (List.ne_nil_of_length_pos (by simp)) m
  rwa [Elf64Phdr.length_toBytes, ← h.phdrOffset_eq hi] at hread

theorem getElem?_and_drop_succ {phdr : Elf64Phdr} {after : List Elf64Phdr} {i : ℕ}
    (h : phdrs.drop i = phdr :: after) : phdrs[i]? = some phdr ∧ phdrs.drop (i + 1) = after := by
  constructor
  · rw [← Nat.add_zero i, ← List.getElem?_drop, h]
    rfl
  · rw [← List.tail_drop, h]
    rfl

/-- One round of the loop. -/
theorem minVaddrLoop_succ (h : ehdr.Heads phdrs file) {i : ℕ} {phdr : Elf64Phdr}
    (hi : phdrs[i]? = some phdr) (m n : ℕ) :
    minVaddrLoop (file.take m) ehdr (n + 1) i =
      if ehdr.ePhoff.toNat + i * ehdr.ePhentsize.toNat + 56 ≤ m then
        if phdr.LoadsStart then phdr.pVaddr else minVaddrLoop (file.take m) ehdr n (i + 1)
      else 0 := by
  have hread := Elf64Phdr.ofBytes_toBytes phdr []
  rw [List.append_nil] at hread
  rw [minVaddrLoop, h.pread_phdr hi]
  by_cases hm : ehdr.ePhoff.toNat + i * ehdr.ePhentsize.toNat + 56 ≤ m
  · simp only [if_pos hm, hread]
  · simp only [if_neg hm]

theorem minVaddrLoop_take (h : ehdr.Heads phdrs file) (m : ℕ) {phdr : Elf64Phdr}
    {after : List Elf64Phdr} (hphdr : phdr.LoadsStart) (before : List Elf64Phdr)
    (hbefore : ∀ p ∈ before, ¬ p.LoadsStart) (i : ℕ)
    (hdrop : phdrs.drop i = before ++ phdr :: after) :
    minVaddrLoop (file.take m) ehdr (phdrs.drop i).length i =
      if ehdr.ePhoff.toNat + (i + before.length) * ehdr.ePhentsize.toNat + 56 ≤ m then phdr.pVaddr
      else 0 := by
  induction before generalizing i with
  | nil =>
    obtain ⟨hi, -⟩ := getElem?_and_drop_succ hdrop
    rw [hdrop, List.nil_append, List.length_cons, h.minVaddrLoop_succ hi, if_pos hphdr]
    rfl
  | cons p before ih =>
    rw [List.cons_append] at hdrop
    obtain ⟨hi, hnext⟩ := getElem?_and_drop_succ hdrop
    have hrest := ih (fun p hp => hbefore p (List.mem_cons_of_mem _ hp)) (i + 1) hnext
    have hindex : i + (p :: before).length = i + 1 + before.length := by
      rw [List.length_cons]
      omega
    rw [hnext] at hrest
    rw [hdrop, List.length_cons, h.minVaddrLoop_succ hi, hindex,
      if_neg (hbefore p (List.mem_cons_self ..)), hrest]
    -- the later records end later
    have hmul : i * ehdr.ePhentsize.toNat ≤ (i + 1 + before.length) * ehdr.ePhentsize.toNat :=
      Nat.mul_le_mul_right _ (by omega)
    by_cases hm : ehdr.ePhoff.toNat + i * ehdr.ePhentsize.toNat + 56 ≤ m
    · rw [if_pos hm]
    · rw [if_neg hm, if_neg (by omega)]

theorem minVaddrLoop_eq_zero (h : ehdr.Heads phdrs file) (m n i : ℕ)
    (hphdrs : ∀ p ∈ phdrs, ¬ p.LoadsStart) (hn : n + i = phdrs.length) :
    minVaddrLoop (file.take m) ehdr n i = 0 := by
  induction n generalizing i with
  | zero => rfl
  | succ n ih =>
    have hi : phdrs[i]? = some phdrs[i] := List.getElem?_eq_getElem (by omega)
    rw [h.minVaddrLoop_succ hi, if_neg (hphdrs _ (List.getElem_mem _)), ih (i + 1) (by omega),
      ite_self]

/-- What the header of a truncated file gives. -/
theorem elfMinVaddrBytes_take (h : ehdr.Heads phdrs file) (m : ℕ) :
    elfMinVaddrBytes (some (file.take m)) =
      if 64 ≤ m then minVaddrLoop (file.take m) ehdr phdrs.length 0 else 0 := by
  have hheader : ehdr.toBytes <+: file.drop 0 := h.header
  have hread := pread_take hheader (List.ne_nil_of_length_pos (by simp)) m
  rw [Elf64Ehdr.length_toBytes, zero_add, Nat.cast_zero] at hread
  have hparse := Elf64Ehdr.ofBytes_toBytes ehdr []
  rw [List.append_nil] at hparse
  rw [elfMinVaddrBytes, hread]
  by_cases hm : 64 ≤ m
  · simp only [if_pos hm, hparse, if_pos h.magic, h.count]
  · simp only [if_neg hm]

end Elf64Ehdr.Heads

/-! ## Written files -/

/-- A file of its header and the table after it. -/
def Elf64Ehdr.image (ehdr : Elf64Ehdr) (phdrs : List Elf64Phdr) : List Byte :=
  ehdr.toBytes ++ phdrs.flatMap Elf64Phdr.toBytes

theorem drop_flatMap_toBytes (phdrs : List Elf64Phdr) (i : ℕ) :
    (phdrs.flatMap Elf64Phdr.toBytes).drop (i * 56) =
      (phdrs.drop i).flatMap Elf64Phdr.toBytes := by
  induction phdrs generalizing i with
  | nil => simp
  | cons phdr phdrs ih =>
    cases i with
    | zero => simp
    | succ i =>
      rw [List.flatMap_cons, List.drop_append, Elf64Phdr.length_toBytes,
        List.drop_eq_nil_of_le (by rw [Elf64Phdr.length_toBytes]; omega), List.nil_append,
        show (i + 1) * 56 - 56 = i * 56 by omega, ih]
      rfl

theorem Elf64Ehdr.heads_image {ehdr : Elf64Ehdr} {phdrs : List Elf64Phdr} (hmagic : ehdr.HasMagic)
    (hphoff : ehdr.ePhoff = 64) (hphentsize : ehdr.ePhentsize = 56)
    (hphnum : ehdr.ePhnum.toNat = phdrs.length) : ehdr.Heads phdrs (ehdr.image phdrs) where
  magic := hmagic
  header := List.prefix_append ..
  count := hphnum
  entry i phdr hi := by
    have hoffset :
        ehdr.ePhoff.toNat + i * ehdr.ePhentsize.toNat = ehdr.toBytes.length + i * 56 := by
      rw [hphoff, hphentsize, Elf64Ehdr.length_toBytes]
      rfl
    obtain ⟨hlt, hget⟩ := List.getElem?_eq_some_iff.1 hi
    rw [hoffset, image, ← List.drop_drop, List.drop_left', drop_flatMap_toBytes,
      List.drop_eq_getElem_cons hlt, hget, List.flatMap_cons]
    · exact List.prefix_append ..
    · rfl
  size := by
    have hlength : (ehdr.image phdrs).length = 64 + phdrs.length * 56 := by
      simp [image, List.length_flatMap]
    have hlt := ehdr.ePhnum.isLt
    omega

/-- **A truncated file does not mislead.** The address of the first segment that is loaded from the
start of the file on is returned as long as the file goes up to the end of its program header, and
`0` else, or if there is none. -/
theorem elfMinVaddrBytes_truncated {ehdr : Elf64Ehdr} {phdrs : List Elf64Phdr} {file : List Byte}
    (h : ehdr.Heads phdrs file) (m : ℕ) :
    (∀ before phdr after, phdrs = before ++ phdr :: after → (∀ p ∈ before, ¬ p.LoadsStart) →
      phdr.LoadsStart → elfMinVaddrBytes (some (file.take m)) =
        if 64 ≤ m ∧ ehdr.ePhoff.toNat + before.length * ehdr.ePhentsize.toNat + 56 ≤ m then
          phdr.pVaddr
        else 0) ∧
    ((∀ p ∈ phdrs, ¬ p.LoadsStart) → elfMinVaddrBytes (some (file.take m)) = 0) := by
  rw [h.elfMinVaddrBytes_take]
  constructor
  · intro before phdr after hphdrs hbefore hphdr
    have hloop := h.minVaddrLoop_take m hphdr before hbefore 0 (by rw [List.drop_zero, hphdrs])
    rw [List.drop_zero, zero_add] at hloop
    rw [hloop, ite_and]
  · intro hphdrs
    rw [h.minVaddrLoop_eq_zero m _ 0 hphdrs rfl, ite_self]

/-- A header with a table of two entries behind it. -/
def Elf64Ehdr.two : Elf64Ehdr :=
  ⟨0x10102464c457f, 2, 62, 1, 0x401000, 64, 0, 0, 64, 56, 2, 64, 0, 0⟩

/-- The table itself, and a page of code that is loaded at `0x400000`. -/
def phdrsTwo : List Elf64Phdr :=
  [⟨⟨6, 4, 64, 0x400040, 112, 112⟩, 0x400040, 8⟩, ⟨⟨1, 5, 0, 0x400000, 4096, 4096⟩, 0x400000, 4096⟩]

theorem elfMinVaddrBytes_two :
    elfMinVaddrBytes (some ((Elf64Ehdr.two.image phdrsTwo).take 176)) = 0x400000 ∧
    elfMinVaddrBytes (some ((Elf64Ehdr.two.image phdrsTwo).take 175)) = 0 := by
  have h := Elf64Ehdr.heads_image (show Elf64Ehdr.two.HasMagic by decide) rfl rfl
    (show Elf64Ehdr.two.ePhnum.toNat = phdrsTwo.length by rfl)
  have hsplit : phdrsTwo = [phdrsTwo[0]] ++ phdrsTwo[1] :: [] := rfl
  have hfirst : ∀ p ∈ [phdrsTwo[0]], ¬ p.LoadsStart := by decide
  have hsecond : phdrsTwo[1].LoadsStart := by decide
  constructor
  · rw [(elfMinVaddrBytes_truncated h 176).1 _ _ _ hsplit hfirst hsecond]
    decide
  · rw [(elfMinVaddrBytes_truncated h 175).1 _ _ _ hsplit hfirst hsecond]
    decide

end Uatu
