import Uatu.Foundations.Patching
import Uatu.Types

/-!
# The platform abstraction

`include/uatu/platform/arch.h`: the registers `ptrace` transfers, the five accessors the engine
uses, the distance the program counter has moved past a breakpoint instruction when it traps, and
the word with a breakpoint instruction in place of its first bytes. An `Arch` carries the laws the
engine relies on: the accessors do not see a change of the program counter, and patching a word
replaces its first `trapLength` bytes by fixed ones and keeps the others.
-/

namespace Uatu

open ByteMemory

/-- An architecture, over its register set `R` (`NativeRegs`). -/
structure Arch (R : Type) where
  getFp : R → Word
  getIp : R → Word
  getSp : R → Word
  getRet : R → Word
  setIp : R → Word → R
  /-- `PC_ADJUST_AFTER_TRAP`. -/
  pcAdjustAfterTrap : Word
  makePatchedWord : Word → Word
  /-- The text `get_regs` throws. -/
  getRegsFailed : String
  /-- The text `set_regs` throws. -/
  setRegsFailed : String
  /-- The number of bytes of a breakpoint instruction. -/
  trapLength : ℕ
  getIp_setIp : ∀ r v, getIp (setIp r v) = v
  getFp_setIp : ∀ r v, getFp (setIp r v) = getFp r
  getSp_setIp : ∀ r v, getSp (setIp r v) = getSp r
  getRet_setIp : ∀ r v, getRet (setIp r v) = getRet r
  setIp_setIp : ∀ r v v', setIp (setIp r v) v' = setIp r v'
  setIp_getIp : ∀ r, setIp r (getIp r) = r
  trapLength_pos : 0 < trapLength
  byte_patched_lt : ∀ w w' i, i < trapLength →
    byte (makePatchedWord w) i = byte (makePatchedWord w') i
  byte_patched_ge : ∀ w i, trapLength ≤ i → byte (makePatchedWord w) i = byte w i

namespace Arch

attribute [simp] getIp_setIp getFp_setIp getSp_setIp getRet_setIp setIp_setIp setIp_getIp

/-- Patching with the low `8 * k` bits under `mask` replaced by `insn` keeps the bytes from
`k` on. -/
theorem byte_patch_ge {mask insn : Word} {k : ℕ} (hm : ∀ j, 8 * k ≤ j → mask.getLsbD j = false)
    (hi : ∀ j, 8 * k ≤ j → insn.getLsbD j = false) (w : Word) (i : ℕ) (h : k ≤ i) :
    byte (w &&& ~~~mask ||| insn) i = byte w i := by
  apply BitVec.eq_of_getLsbD_eq
  intro j hj
  have hk : 8 * k ≤ 8 * i + j := by omega
  simp only [byte, BitVec.getLsbD_extractLsb', BitVec.getLsbD_or, BitVec.getLsbD_and,
    BitVec.getLsbD_not, hm _ hk, hi _ hk]
  by_cases h64 : 8 * i + j < 64
  · simp [h64]
  · simp [BitVec.getLsbD_of_ge w _ (not_lt.1 h64)]

/-- Patching with the low `8 * k` bits under `mask` replaced by `insn` fixes the bytes below
`k`. -/
theorem byte_patch_lt {mask insn : Word} {k : ℕ} (hm : ∀ j, j < 8 * k → mask.getLsbD j = true)
    (w w' : Word) (i : ℕ) (h : i < k) :
    byte (w &&& ~~~mask ||| insn) i = byte (w' &&& ~~~mask ||| insn) i := by
  apply BitVec.eq_of_getLsbD_eq
  intro j hj
  have hk : 8 * i + j < 8 * k := by omega
  simp only [byte, BitVec.getLsbD_extractLsb', BitVec.getLsbD_or, BitVec.getLsbD_and,
    BitVec.getLsbD_not, hm _ hk, Bool.not_true, Bool.and_false]

end Arch

/-! ## x86_64 -/

/-- `user_regs_struct` of x86_64: the four registers the engine reads, and the others. -/
structure X86Regs where
  rip : Word
  rsp : Word
  rbp : Word
  rax : Word
  others : Fin 23 → Word

/-- The mask of the low `8 * k` bits. -/
theorem getLsbD_mask {k : ℕ} (hk : 8 * k ≤ 64) (j : ℕ) :
    (BitVec.ofNat 64 (2 ^ (8 * k) - 1)).getLsbD j = decide (j < 8 * k) := by
  rw [BitVec.getLsbD_ofNat, Nat.testBit_two_pow_sub_one]
  by_cases h : j < 8 * k
  · simp [h, lt_of_lt_of_le h hk]
  · simp [h]

/-- An instruction of `k` bytes has no bit from `8 * k` on. -/
theorem getLsbD_insn {insn k : ℕ} (h : insn < 2 ^ (8 * k)) (j : ℕ) (hj : 8 * k ≤ j) :
    (BitVec.ofNat 64 insn).getLsbD j = false := by
  rw [BitVec.getLsbD_ofNat,
    Nat.testBit_lt_two_pow (h.trans_le (Nat.pow_le_pow_right (by omega) hj)), Bool.and_false]

/-- `INT3 = 0xCC`, one byte; the program counter has moved past it when it traps. -/
def x86_64 : Arch X86Regs where
  getFp r := r.rbp
  getIp r := r.rip
  getSp r := r.rsp
  getRet r := r.rax
  setIp r v := { r with rip := v }
  pcAdjustAfterTrap := 1
  makePatchedWord orig := orig &&& ~~~0xFF ||| 0xCC
  getRegsFailed := "PTRACE_GETREGS failed"
  setRegsFailed := "PTRACE_SETREGS failed"
  trapLength := 1
  getIp_setIp _ _ := rfl
  getFp_setIp _ _ := rfl
  getSp_setIp _ _ := rfl
  getRet_setIp _ _ := rfl
  setIp_setIp _ _ _ := rfl
  setIp_getIp _ := rfl
  trapLength_pos := by decide
  byte_patched_lt w w' i hi := Arch.byte_patch_lt (k := 1)
    (fun j hj => (getLsbD_mask (k := 1) (by omega) j).trans (decide_eq_true hj)) w w' i hi
  byte_patched_ge w i hi := Arch.byte_patch_ge (k := 1)
    (fun j hj => (getLsbD_mask (k := 1) (by omega) j).trans (decide_eq_false (by omega)))
    (getLsbD_insn (k := 1) (by decide)) w i hi

/-- Planting a breakpoint on x86_64 changes one byte. -/
theorem plant_x86_64 (m : Memory 64) (a : Addr) :
    plant x86_64.makePatchedWord m a = Function.update m a 0xCC := by
  funext x
  by_cases hx : InWord a x
  · rw [plant, writeWord_of_inWord _ _ hx]
    rcases Nat.eq_zero_or_pos (x - a).toNat with h0 | hpos
    · have hxa : x = a := by
        have h : x - a = 0 := BitVec.eq_of_toNat_eq (by simpa using h0)
        exact sub_eq_zero.1 h
      rw [h0, hxa, Function.update_self, x86_64.byte_patched_lt _ 0 0 (by decide)]
      decide
    · rw [x86_64.byte_patched_ge _ _ hpos, byte_readWord_sub m hx, Function.update_of_ne]
      rintro rfl
      simp at hpos
  · rw [plant, writeWord_of_not_inWord _ _ hx, Function.update_of_ne]
    rintro rfl
    exact hx (inWord_self x)

/-! ## aarch64 -/

/-- `user_regs_struct` of aarch64. -/
structure Aarch64Regs where
  regs : Fin 31 → Word
  sp : Word
  pc : Word
  pstate : Word

instance Aarch64Regs.neZero : NeZero 31 := ⟨by decide⟩

/-- `BRK #0 = 0xD4200000`, four bytes; the program counter stays at the instruction. -/
def aarch64 : Arch Aarch64Regs where
  getFp r := r.regs 29
  getIp r := r.pc
  getSp r := r.sp
  getRet r := r.regs 0
  setIp r v := { r with pc := v }
  pcAdjustAfterTrap := 0
  makePatchedWord orig := orig &&& ~~~0xFFFFFFFF ||| 0xD4200000
  getRegsFailed := "PTRACE_GETREGSET failed"
  setRegsFailed := "PTRACE_SETREGSET failed"
  trapLength := 4
  getIp_setIp _ _ := rfl
  getFp_setIp _ _ := rfl
  getSp_setIp _ _ := rfl
  getRet_setIp _ _ := rfl
  setIp_setIp _ _ _ := rfl
  setIp_getIp _ := rfl
  trapLength_pos := by decide
  byte_patched_lt w w' i hi := Arch.byte_patch_lt (k := 4)
    (fun j hj => (getLsbD_mask (k := 4) (by omega) j).trans (decide_eq_true hj)) w w' i hi
  byte_patched_ge w i hi := Arch.byte_patch_ge (k := 4)
    (fun j hj => (getLsbD_mask (k := 4) (by omega) j).trans (decide_eq_false (by omega)))
    (getLsbD_insn (k := 4) (by decide)) w i hi

/-! ## riscv64 -/

/-- `user_regs_struct` of riscv64: the registers the engine reads, the return-address register
and the others. -/
structure Riscv64Regs where
  pc : Word
  ra : Word
  sp : Word
  s0 : Word
  a0 : Word
  others : Fin 27 → Word

/-- `EBREAK = 0x00100073`, four bytes; the program counter stays at the instruction. -/
def riscv64 : Arch Riscv64Regs where
  getFp r := r.s0
  getIp r := r.pc
  getSp r := r.sp
  getRet r := r.a0
  setIp r v := { r with pc := v }
  pcAdjustAfterTrap := 0
  makePatchedWord orig := orig &&& ~~~0xFFFFFFFF ||| 0x00100073
  getRegsFailed := "PTRACE_GETREGSET failed"
  setRegsFailed := "PTRACE_SETREGSET failed"
  trapLength := 4
  getIp_setIp _ _ := rfl
  getFp_setIp _ _ := rfl
  getSp_setIp _ _ := rfl
  getRet_setIp _ _ := rfl
  setIp_setIp _ _ _ := rfl
  setIp_getIp _ := rfl
  trapLength_pos := by decide
  byte_patched_lt w w' i hi := Arch.byte_patch_lt (k := 4)
    (fun j hj => (getLsbD_mask (k := 4) (by omega) j).trans (decide_eq_true hj)) w w' i hi
  byte_patched_ge w i hi := Arch.byte_patch_ge (k := 4)
    (fun j hj => (getLsbD_mask (k := 4) (by omega) j).trans (decide_eq_false (by omega)))
    (getLsbD_insn (k := 4) (by decide)) w i hi

end Uatu
