import Mathlib.Data.BitVec
import Mathlib.Tactic.IntervalCases
import Mathlib.Tactic.SplitIfs

/-!
# Byte memories and little-endian words

A memory is a total map from `n`-bit addresses to bytes; a word is eight bytes, read and written
little-endian at any address, aligned or not, and wrapping at the end of the address space. Every
fact is stated byte by byte: `InWord a x` says that the byte at `x` is one of the eight of the word
at `a`, `byte_readWord_sub` reads it off the word, and `writeWord` changes the bytes of its word
and no others. Two words may overlap; nothing here asks them not to.
-/

namespace ByteMemory

/-- A byte-addressed memory. -/
abbrev Memory (n : ℕ) := BitVec n → BitVec 8

/-- The `i`-th byte of a word, the least significant first. -/
def byte (w : BitVec 64) (i : ℕ) : BitVec 8 := w.extractLsb' (8 * i) 8

variable {n : ℕ}

/-- The word at an address. -/
def readWord (m : Memory n) (a : BitVec n) : BitVec 64 :=
  m (a + 7) ++ m (a + 6) ++ m (a + 5) ++ m (a + 4) ++ m (a + 3) ++ m (a + 2) ++ m (a + 1) ++ m a

/-- The byte at `x` is one of the eight of the word at `a`. -/
def InWord (a x : BitVec n) : Prop := (x - a).toNat < 8

instance (a x : BitVec n) : Decidable (InWord a x) := inferInstanceAs (Decidable (_ < _))

/-- The memory after a word is written. -/
def writeWord (m : Memory n) (a : BitVec n) (w : BitVec 64) : Memory n := fun x =>
  if InWord a x then byte w (x - a).toNat else m x

theorem byte_readWord (m : Memory n) (a : BitVec n) {i : ℕ} (hi : i < 8) :
    byte (readWord m a) i = m (a + BitVec.ofNat n i) := by
  apply BitVec.eq_of_getLsbD_eq
  intro j hj
  interval_cases i <;>
    simp (disch := omega) [byte, readWord] <;> grind

/-- Words with the same bytes are equal. -/
theorem word_ext {w w' : BitVec 64} (h : ∀ i < 8, byte w i = byte w' i) : w = w' := by
  apply BitVec.eq_of_getLsbD_eq
  intro j hj
  have hb := congrArg (fun b : BitVec 8 => b.getLsbD (j % 8)) (h (j / 8) (by omega))
  simp only [byte, BitVec.getLsbD_extractLsb'] at hb
  have e : 8 * (j / 8) + j % 8 = j := by omega
  have hm : j % 8 < 8 := by omega
  simpa only [e, hm, decide_true, Bool.true_and] using hb

/-! ## The bytes of a word -/

theorem inWord_self (a : BitVec n) : InWord a a := by simp [InWord]

/-- The byte of the memory at `x`, read off a word that covers it. -/
theorem byte_readWord_sub (m : Memory n) {a x : BitVec n} (h : InWord a x) :
    byte (readWord m a) (x - a).toNat = m x := by
  rw [byte_readWord m a h, BitVec.ofNat_toNat, BitVec.setWidth_eq, BitVec.add_comm,
    BitVec.sub_add_cancel]

theorem writeWord_of_inWord (m : Memory n) {a x : BitVec n} (w : BitVec 64) (h : InWord a x) :
    writeWord m a w x = byte w (x - a).toNat := if_pos h

theorem writeWord_of_not_inWord (m : Memory n) {a x : BitVec n} (w : BitVec 64)
    (h : ¬ InWord a x) : writeWord m a w x = m x := if_neg h

/-- Words read from two memories agree when the eight bytes do. -/
theorem readWord_congr {m m' : Memory n} {a : BitVec n} (h : ∀ i < 8, m (a + BitVec.ofNat n i) =
    m' (a + BitVec.ofNat n i)) : readWord m a = readWord m' a :=
  word_ext fun i hi => by rw [byte_readWord m a hi, byte_readWord m' a hi, h i hi]

theorem inWord_add (a : BitVec n) {i : ℕ} (hi : i < 8) : InWord a (a + BitVec.ofNat n i) := by
  rw [InWord, BitVec.add_comm, BitVec.add_sub_cancel, BitVec.toNat_ofNat]
  exact (Nat.mod_le i _).trans_lt hi

theorem readWord_congr_inWord {m m' : Memory n} {a : BitVec n}
    (h : ∀ x, InWord a x → m x = m' x) : readWord m a = readWord m' a :=
  readWord_congr fun _ hi => h _ (inWord_add a hi)

/-- Writing back the word that was read changes nothing. -/
@[simp] theorem writeWord_readWord (m : Memory n) (a : BitVec n) :
    writeWord m a (readWord m a) = m := by
  funext x
  by_cases h : InWord a x
  · rw [writeWord_of_inWord m _ h, byte_readWord_sub m h]
  · rw [writeWord_of_not_inWord m _ h]

/-- What was written is read. -/
theorem readWord_writeWord (hn : 3 ≤ n) (m : Memory n) (a : BitVec n) (w : BitVec 64) :
    readWord (writeWord m a w) a = w := by
  apply word_ext
  intro i hi
  have hpow : 2 ^ 3 ≤ 2 ^ n := Nat.pow_le_pow_right (by omega) hn
  have hsub : (a + BitVec.ofNat n i - a).toNat = i := by
    rw [BitVec.add_comm, BitVec.add_sub_cancel, BitVec.toNat_ofNat]
    exact Nat.mod_eq_of_lt (by omega)
  rw [byte_readWord _ a hi, writeWord_of_inWord m w (inWord_add a hi), hsub]

/-- A second write of the same word hides the first. -/
@[simp] theorem writeWord_writeWord (m : Memory n) (a : BitVec n) (w w' : BitVec 64) :
    writeWord (writeWord m a w) a w' = writeWord m a w' := by
  funext x
  by_cases h : InWord a x
  · simp only [writeWord, h, if_true]
  · simp only [writeWord, h, if_false]

/-- Writing back the word that was read undoes a change of its first byte. -/
theorem writeWord_update (m : Memory n) (a : BitVec n) (b : BitVec 8) :
    writeWord (Function.update m a b) a (readWord m a) = m := by
  funext x
  by_cases h : InWord a x
  · rw [writeWord_of_inWord _ _ h, byte_readWord_sub m h]
  · rw [writeWord_of_not_inWord _ _ h, Function.update_of_ne]
    rintro rfl
    exact h (inWord_self x)

theorem byte_readWord_zero (m : Memory n) (a : BitVec n) : byte (readWord m a) 0 = m a := by
  have h := byte_readWord_sub m (inWord_self a)
  rwa [BitVec.sub_self, BitVec.toNat_zero] at h

end ByteMemory
