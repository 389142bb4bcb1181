import Mathlib.Data.BitVec
import Mathlib.Data.Nat.Digits.Defs

/-!
# Little-endian records

A record is laid out as the bytes of its fields one after the other, each with its lowest byte
first. `word` reads a field at an offset, `put` writes one. A field is read back wherever it stands
in the record (`word_put_append`, `word_append_right`).
-/

namespace LittleEndian

abbrev Byte := BitVec 8

/-- The number that bytes stand for. -/
def value (bs : List Byte) : ℕ := Nat.ofDigits 256 (bs.map BitVec.toNat)

/-- The lowest bytes of a number. -/
def bytes : ℕ → ℕ → List Byte
  | 0, _ => []
  | n + 1, v => BitVec.ofNat 8 v :: bytes n (v / 256)

@[simp] theorem length_bytes (n v : ℕ) : (bytes n v).length = n := by
  induction n generalizing v with
  | zero => rfl
  | succ n ih => rw [bytes, List.length_cons, ih]

theorem value_cons (b : Byte) (bs : List Byte) : value (b :: bs) = b.toNat + 256 * value bs := by
  rw [value, List.map_cons, Nat.ofDigits_cons]
  rfl

theorem value_bytes (n v : ℕ) : value (bytes n v) = v % 256 ^ n := by
  induction n generalizing v with
  | zero =>
    rw [pow_zero, Nat.mod_one]
    rfl
  | succ n ih =>
    have hbyte : (BitVec.ofNat 8 v).toNat = v % 256 := BitVec.toNat_ofNat ..
    rw [bytes, value_cons, ih, hbyte, Nat.pow_succ', Nat.mod_mul]

theorem value_replicate_zero (n : ℕ) : value (List.replicate n 0) = 0 := by
  induction n with
  | zero => rfl
  | succ n ih =>
    rw [List.replicate_succ, value_cons, ih]
    rfl

/-! ## Fields -/

variable {w : ℕ}

/-- The field of `w` bits at an offset. -/
def word (w : ℕ) (bs : List Byte) (off : ℕ) : BitVec w :=
  BitVec.ofNat w (value ((bs.drop off).take (w / 8)))

/-- The bytes of a field. -/
def put (x : BitVec w) : List Byte := bytes (w / 8) x.toNat

@[simp] theorem length_put (x : BitVec w) : (put x).length = w / 8 := length_bytes ..

/-- A field at the front is read back. -/
theorem word_put_append (hw : 8 ∣ w) (x : BitVec w) (rest : List Byte) :
    word w (put x ++ rest) 0 = x := by
  have hpow : 256 ^ (w / 8) = 2 ^ w := by
    rw [show 256 = 2 ^ 8 by rfl, ← pow_mul, Nat.mul_div_cancel' hw]
  rw [word, List.drop_zero, List.take_left' (length_put x), put, value_bytes, hpow,
    Nat.mod_eq_of_lt x.isLt, BitVec.ofNat_toNat, BitVec.setWidth_eq]

/-- A field behind others is read behind them. -/
theorem word_append_right {before bs : List Byte} {off : ℕ} (h : before.length ≤ off) :
    word w (before ++ bs) off = word w bs (off - before.length) := by
  rw [word, List.drop_append, List.drop_eq_nil_of_le h, List.nil_append]
  rfl

theorem word_put_append_right {v : ℕ} {x : BitVec v} {bs : List Byte} {off : ℕ}
    (h : v / 8 ≤ off) : word w (put x ++ bs) off = word w bs (off - v / 8) := by
  rw [word_append_right (by rwa [length_put]), length_put]

end LittleEndian
