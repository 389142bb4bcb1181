import Uatu.Foundations.LittleEndian
import Mathlib.Data.List.Pairwise

/-!
# C structs in memory

The offsets of the members of a struct follow from their sizes and alignments. Writes to memory that
do not overlap are all read back, whatever the memory held before and in whatever order they are
made (`load_write`).
-/

namespace Structs

open LittleEndian

/-! ## Layout -/

/-- A member of a struct. -/
structure Member where
  size : ℕ
  align : ℕ

def uint64 : Member := ⟨8, 8⟩

def uint32 : Member := ⟨4, 4⟩

def uint8 : Member := ⟨1, 1⟩

def Member.array (m : Member) (n : ℕ) : Member := ⟨n * m.size, m.align⟩

/-- The least multiple of the alignment from `n` on. -/
def alignUp (n align : ℕ) : ℕ := (n + align - 1) / align * align

/-- The offsets of members, the first of which comes after `n` bytes, and the end of the last. -/
def offsetsFrom : ℕ → List Member → List ℕ × ℕ
  | n, [] => ([], n)
  | n, m :: members =>
    let off := alignUp n m.align
    let (offs, last) := offsetsFrom (off + m.size) members
    (off :: offs, last)

/-- The offset of a member. -/
def offset (members : List Member) (i : ℕ) : ℕ := ((offsetsFrom 0 members).1[i]?).getD 0

def structSize (members : List Member) : ℕ :=
  alignUp (offsetsFrom 0 members).2 ((members.map Member.align).foldr max 1)

/-! ## Reads and writes -/

/-- The bytes from an offset on. -/
def load (off n : ℕ) (bs : List Byte) : List Byte := (bs.drop off).take n

/-- A write of bytes at an offset. -/
structure Write where
  off : ℕ
  bytes : List Byte

def store (w : Write) (bs : List Byte) : List Byte :=
  bs.take w.off ++ w.bytes ++ bs.drop (w.off + w.bytes.length)

/-- Writes, one after the other. -/
def write (ws : List Write) (bs : List Byte) : List Byte := ws.foldl (fun bs w => store w bs) bs

/-- The bytes that a write is of: its offset and how many there are. -/
def Write.extent (w : Write) : ℕ × ℕ := (w.off, w.bytes.length)

/-- Two extents have no byte in common. -/
def Apart (x y : ℕ × ℕ) : Prop := x.1 + x.2 ≤ y.1 ∨ y.1 + y.2 ≤ x.1

instance decidableApart (x y : ℕ × ℕ) : Decidable (Apart x y) :=
  inferInstanceAs (Decidable (_ ∨ _))

variable {w : Write} {ws : List Write} {bs : List Byte} {off n k : ℕ}

theorem length_store (h : w.off + w.bytes.length ≤ bs.length) :
    (store w bs).length = bs.length := by
  rw [store, List.length_append, List.length_append, List.length_take, List.length_drop]
  omega

/-- What is written is read. -/
theorem load_store (h : w.off + w.bytes.length ≤ bs.length) (hk : k + n ≤ w.bytes.length) :
    load (w.off + k) n (store w bs) = load k n w.bytes := by
  have htake : (bs.take w.off).length = w.off := List.length_take_of_le (by omega)
  rw [load, store, List.append_assoc, List.drop_append, htake,
    List.drop_eq_nil_of_le (by omega), List.nil_append, Nat.add_sub_cancel_left,
    List.drop_append_of_le_length (by omega), load,
    List.take_append_of_le_length (by rw [List.length_drop]; omega)]

/-- What is read elsewhere is what was there. -/
theorem load_store_of_apart (h : w.off + w.bytes.length ≤ bs.length)
    (hapart : Apart w.extent (off, n)) : load off n (store w bs) = load off n bs := by
  have htake : (bs.take w.off).length = w.off := List.length_take_of_le (by omega)
  rw [Apart, Write.extent] at hapart
  apply List.ext_getElem?
  intro i
  rw [load, load, store, List.getElem?_take, List.getElem?_take, List.getElem?_drop,
    List.getElem?_drop]
  split_ifs with hi
  · rw [List.append_assoc, List.getElem?_append, htake]
    split_ifs with hlow
    · rw [List.getElem?_take, if_pos hlow]
    · rw [List.getElem?_append_right (by omega), List.getElem?_drop]
      congr 1
      omega
  · rfl

/-- What is read elsewhere is what was there before all of them. -/
theorem load_write_of_apart (hfit : ∀ w ∈ ws, w.off + w.bytes.length ≤ bs.length)
    (hapart : ∀ w ∈ ws, Apart w.extent (off, n)) : load off n (write ws bs) = load off n bs := by
  induction ws generalizing bs with
  | nil => rfl
  | cons v ws ih =>
    rw [List.forall_mem_cons] at hfit hapart
    have hfit' : ∀ u ∈ ws, u.off + u.bytes.length ≤ (store v bs).length := by
      rw [length_store hfit.1]
      exact hfit.2
    rw [write, List.foldl_cons, ← write, ih hfit' hapart.2, load_store_of_apart hfit.1 hapart.1]

/-- **Writes that do not overlap are read back.** -/
theorem load_write (hfit : ∀ w ∈ ws, w.off + w.bytes.length ≤ bs.length)
    (hapart : (ws.map Write.extent).Pairwise Apart) (hw : w ∈ ws) (hk : k + n ≤ w.bytes.length) :
    load (w.off + k) n (write ws bs) = load k n w.bytes := by
  induction ws generalizing bs with
  | nil => cases hw
  | cons v ws ih =>
    rw [List.forall_mem_cons] at hfit
    rw [List.map_cons, List.pairwise_cons] at hapart
    have hfit' : ∀ u ∈ ws, u.off + u.bytes.length ≤ (store v bs).length := by
      rw [length_store hfit.1]
      exact hfit.2
    rw [write, List.foldl_cons, ← write]
    rcases List.mem_cons.1 hw with rfl | hw
    · refine (load_write_of_apart hfit' fun u hu => ?_).trans (load_store hfit.1 hk)
      have hdisjoint := hapart.1 _ (List.mem_map_of_mem hu)
      rw [Apart, Write.extent, Write.extent] at hdisjoint
      rw [Apart, Write.extent]
      dsimp only at hdisjoint ⊢
      omega
    · exact ih hfit' hapart.2 hw

theorem length_write (hfit : ∀ w ∈ ws, w.off + w.bytes.length ≤ bs.length) :
    (write ws bs).length = bs.length := by
  induction ws generalizing bs with
  | nil => rfl
  | cons v ws ih =>
    rw [List.forall_mem_cons] at hfit
    have hlength := length_store hfit.1
    rw [write, List.foldl_cons, ← write, ih (hlength ▸ hfit.2), hlength]

/-- A field that is written is read. -/
theorem word_write {v : ℕ} {x : BitVec v} (hv : 8 ∣ v)
    (hfit : ∀ w ∈ ws, w.off + w.bytes.length ≤ bs.length)
    (hapart : (ws.map Write.extent).Pairwise Apart) (hw : ⟨off, put x⟩ ∈ ws) :
    word v (write ws bs) off = x := by
  have hload := load_write (k := 0) (n := v / 8) hfit hapart hw (by rw [length_put, Nat.zero_add])
  have hfront := word_put_append hv x []
  rw [List.append_nil, word, ← load] at hfront
  rw [word, ← load]
  rw [Nat.add_zero] at hload
  rw [hload, hfront]

/-- A field in memory that is filled with zeros is zero. -/
theorem word_write_zeros {v m : ℕ} (hfit : ∀ w ∈ ws, w.off + w.bytes.length ≤ bs.length)
    (hapart : (ws.map Write.extent).Pairwise Apart) (hw : ⟨off, List.replicate m 0⟩ ∈ ws)
    (hk : k + v / 8 ≤ m) : word v (write ws bs) (off + k) = 0 := by
  have hload := load_write (k := k) (n := v / 8) hfit hapart hw (by rwa [List.length_replicate])
  rw [word, ← load, hload, load, List.drop_replicate, List.take_replicate, value_replicate_zero]
  rfl

end Structs
