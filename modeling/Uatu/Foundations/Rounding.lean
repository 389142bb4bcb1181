import Mathlib.Algebra.Order.Field.Power
import Mathlib.Algebra.Order.Floor.Ring
import Mathlib.Algebra.Order.Round
import Mathlib.Data.Int.Log
import Mathlib.Tactic.Linarith
import Mathlib.Tactic.Ring

/-!
# Rounding to nearest

`nearest` rounds to an integer, and `roundTo p` to `p` binary digits, in both cases to the even one
of two neighbours that are equally near. The range of exponents is not bounded. Both are monotone,
and the relative error of the second is at most `2 ^ (-p)` (`abs_roundTo_sub_le`).
-/

namespace Rounding

variable {K : Type*} [Field K] [LinearOrder K] [IsStrictOrderedRing K] [FloorRing K]

/-! ## To an integer -/

/-- The nearest integer, and the even one of two. -/
def nearest (x : K) : ℤ :=
  if Int.fract x < 1 / 2 then ⌊x⌋
  else if 1 / 2 < Int.fract x then ⌊x⌋ + 1
  else if Even ⌊x⌋ then ⌊x⌋
  else ⌊x⌋ + 1

theorem abs_nearest_sub_le (x : K) : |(nearest x : K) - x| ≤ 1 / 2 := by
  have hfract := Int.floor_add_fract x
  have hnonneg := Int.fract_nonneg x
  have hlt := Int.fract_lt_one x
  rw [nearest, abs_le]
  split_ifs
  · constructor <;> linarith
  · push_cast
    constructor <;> linarith
  · constructor <;> linarith
  · push_cast
    constructor <;> linarith

theorem nearest_eq_of_abs_sub_lt {x : K} {n : ℤ} (h : |x - n| < 1 / 2) : nearest x = n := by
  have hle := abs_nearest_sub_le x
  rw [abs_lt] at h
  rw [abs_le] at hle
  have hlt : (nearest x : K) < (n + 1 : ℤ) := by
    push_cast
    linarith
  have hgt : ((n - 1 : ℤ) : K) < (nearest x : K) := by
    push_cast
    linarith
  have hlt' := Int.cast_lt.1 hlt
  have hgt' := Int.cast_lt.1 hgt
  omega

@[simp] theorem nearest_intCast (n : ℤ) : nearest (n : K) = n :=
  nearest_eq_of_abs_sub_lt (by simp)

theorem nearest_mono {x y : K} (hxy : x ≤ y) : nearest x ≤ nearest y := by
  by_contra! hlt
  have hx := (abs_le.1 (abs_nearest_sub_le x)).2
  have hy := (abs_le.1 (abs_nearest_sub_le y)).1
  have hstep : (nearest y : K) + 1 ≤ nearest x := by exact_mod_cast hlt
  -- they are equal, so they are rounded alike
  have heq : x = y := by linarith
  rw [heq] at hlt
  exact lt_irrefl _ hlt

/-! ## To binary digits -/

/-- The weight of the last of `p` digits. -/
def exponent (p : ℕ) (x : K) : ℤ := Int.log 2 x + 1 - p

/-- The nearest number of `p` binary digits. -/
def roundTo (p : ℕ) (x : K) : K := nearest (x / 2 ^ exponent p x) * 2 ^ exponent p x

theorem two_zpow_pos (e : ℤ) : (0 : K) < 2 ^ e := zpow_pos two_pos e

theorem two_zpow_log_le {x : K} (hx : 0 < x) : (2 : K) ^ Int.log 2 x ≤ x := by
  exact_mod_cast Int.zpow_log_le_self (by decide : 1 < 2) hx

theorem lt_two_zpow_log (x : K) : x < (2 : K) ^ (Int.log 2 x + 1) := by
  exact_mod_cast Int.lt_zpow_succ_log_self (by decide : 1 < 2) x

theorem roundTo_zero (p : ℕ) : roundTo p (0 : K) = 0 := by
  have h := nearest_intCast (K := K) 0
  rw [Int.cast_zero] at h
  rw [roundTo, zero_div, h, Int.cast_zero, zero_mul]

/-- The relative error. -/
theorem abs_roundTo_sub_le (p : ℕ) {x : K} (hx : 0 ≤ x) :
    |roundTo p x - x| ≤ x * 2 ^ (-p : ℤ) := by
  obtain rfl | hx := hx.eq_or_lt
  · rw [roundTo_zero, sub_zero, abs_zero, zero_mul]
  have hpos := two_zpow_pos (K := K) (exponent p x)
  have hsplit : roundTo p x - x =
      (nearest (x / 2 ^ exponent p x) - x / 2 ^ exponent p x) * 2 ^ exponent p x := by
    rw [roundTo, sub_mul, div_mul_cancel₀ _ hpos.ne']
  rw [hsplit, abs_mul, abs_of_pos hpos]
  calc _ ≤ 1 / 2 * (2 : K) ^ exponent p x :=
        mul_le_mul_of_nonneg_right (abs_nearest_sub_le _) hpos.le
    _ = 2 ^ Int.log 2 x * 2 ^ (-p : ℤ) := by
        rw [exponent, sub_eq_add_neg, zpow_add₀ two_ne_zero, zpow_add₀ two_ne_zero, zpow_one]
        ring
    _ ≤ x * 2 ^ (-p : ℤ) :=
        mul_le_mul_of_nonneg_right (two_zpow_log_le hx) (two_zpow_pos _).le

/-- A number of `p` digits is left alone. -/
theorem roundTo_natCast {p n : ℕ} (h : n < 2 ^ p) : roundTo p (n : K) = n := by
  obtain rfl | hn := Nat.eq_zero_or_pos n
  · rw [Nat.cast_zero, roundTo_zero]
  have hlog : Nat.log 2 n < p := Nat.log_lt_of_lt_pow hn.ne' h
  obtain ⟨k, hk⟩ : ∃ k : ℕ, exponent p (n : K) = -k := by
    refine ⟨p - 1 - Nat.log 2 n, ?_⟩
    rw [exponent, Int.log_natCast]
    omega
  have hint : (n : K) / 2 ^ (-k : ℤ) = ((n * 2 ^ k : ℤ) : K) := by
    rw [zpow_neg, div_inv_eq_mul, zpow_natCast]
    push_cast
    rfl
  rw [roundTo, hk, hint, nearest_intCast, ← hint, div_mul_cancel₀ _ (two_zpow_pos _).ne']

theorem roundTo_nonneg (p : ℕ) {x : K} (hx : 0 ≤ x) : 0 ≤ roundTo p x := by
  have hnearest : nearest ((0 : ℤ) : K) ≤ nearest (x / 2 ^ exponent p x) := by
    rw [Int.cast_zero]
    exact nearest_mono (div_nonneg hx (two_zpow_pos _).le)
  rw [nearest_intCast] at hnearest
  exact mul_nonneg (Int.cast_nonneg hnearest) (two_zpow_pos _).le

/-- The next power of two is not passed. -/
theorem roundTo_le_two_zpow (p : ℕ) (x : K) : roundTo p x ≤ 2 ^ (Int.log 2 x + 1) := by
  have hpos := two_zpow_pos (K := K) (exponent p x)
  have hpow : ((2 ^ p : ℤ) : K) * 2 ^ exponent p x = 2 ^ (Int.log 2 x + 1) := by
    rw [exponent, Int.cast_pow, Int.cast_ofNat, ← zpow_natCast, ← zpow_add₀ two_ne_zero]
    congr 1
    ring
  have hle : x / 2 ^ exponent p x ≤ ((2 ^ p : ℤ) : K) := by
    rw [div_le_iff₀ hpos, hpow]
    exact (lt_two_zpow_log x).le
  have hnearest := nearest_mono hle
  rw [nearest_intCast] at hnearest
  rw [roundTo, ← hpow]
  exact mul_le_mul_of_nonneg_right (Int.cast_le.2 hnearest) hpos.le

/-- The last power of two is kept. -/
theorem two_zpow_le_roundTo {p : ℕ} (hp : 0 < p) {x : K} (hx : 0 < x) :
    2 ^ Int.log 2 x ≤ roundTo p x := by
  have hpos := two_zpow_pos (K := K) (exponent p x)
  have hpow : ((2 ^ (p - 1) : ℤ) : K) * 2 ^ exponent p x = 2 ^ Int.log 2 x := by
    rw [exponent, Int.cast_pow, Int.cast_ofNat, ← zpow_natCast, ← zpow_add₀ two_ne_zero]
    congr 1
    omega
  have hle : ((2 ^ (p - 1) : ℤ) : K) ≤ x / 2 ^ exponent p x := by
    rw [le_div_iff₀ hpos, hpow]
    exact two_zpow_log_le hx
  have hnearest := nearest_mono hle
  rw [nearest_intCast] at hnearest
  rw [roundTo, ← hpow]
  exact mul_le_mul_of_nonneg_right (Int.cast_le.2 hnearest) hpos.le

theorem roundTo_mono {p : ℕ} (hp : 0 < p) {x y : K} (hx : 0 ≤ x) (hxy : x ≤ y) :
    roundTo p x ≤ roundTo p y := by
  obtain rfl | hpos := hx.eq_or_lt
  · rw [roundTo_zero]
    exact roundTo_nonneg p hxy
  obtain hlog | hlog := (Int.log_mono_right (b := 2) hpos hxy).eq_or_lt
  · -- of one size
    have hexp : exponent p x = exponent p y := by rw [exponent, exponent, hlog]
    have hdiv : x / 2 ^ exponent p y ≤ y / 2 ^ exponent p y :=
      div_le_div_of_nonneg_right hxy (two_zpow_pos _).le
    rw [roundTo, roundTo, hexp]
    exact mul_le_mul_of_nonneg_right (Int.cast_le.2 (nearest_mono hdiv)) (two_zpow_pos _).le
  · calc roundTo p x ≤ 2 ^ (Int.log 2 x + 1) := roundTo_le_two_zpow p x
      _ ≤ 2 ^ Int.log 2 y := zpow_le_zpow_right₀ one_le_two hlog
      _ ≤ roundTo p y := two_zpow_le_roundTo hp (hpos.trans_le hxy)

end Rounding
