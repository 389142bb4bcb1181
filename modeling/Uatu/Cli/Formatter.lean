import Uatu.Engine.Format
import Uatu.Foundations.Rounding
import Mathlib.Data.Rat.Floor

/-!
# The lines that are printed

`src/cli/formatter.cpp`. Durations are shown in milliseconds: the conversion to `double`, the
division by `1e6` and the printing of three digits round one after the other. Below `2 ^ 53`
nanoseconds what is shown is the nearest microsecond all the same, unless the duration is halfway
between two, and no duration is shown as less than a shorter one (`shownMicros_spec`).
-/

namespace Uatu

open Rounding

/-- `duration_ns / 1e6`, a `double`. -/
def costMs (durationNs : Word) : ℚ := roundTo 53 (roundTo 53 (durationNs.toNat : ℚ) / 10 ^ 6)

/-- The digits that `std::fixed << std::setprecision(3)` shows, as a number. -/
def thousandths (x : ℚ) : ℕ := (nearest (x * 1000)).toNat

/-- So many thousandths. -/
def thousandthsText (n : ℕ) : Text :=
  decimal (n / 1000) ++ '.' :: (decimal (n % 1000)).leftpad 3 '0'

/-- `std::fixed << std::setprecision(3) << x`. -/
def fixed3 (x : ℚ) : Text := thousandthsText (thousandths x)

/-- `format_watch_event`. -/
def formatWatchEvent (ev : WatchEvent) : Text :=
  "ts=".toList ++ decimal ev.timestampNs.toNat ++ "  func=".toList ++ ev.funcName ++
    "  cost=".toList ++ fixed3 (costMs ev.durationNs) ++ "ms".toList ++ "  ret=".toList ++
    ev.retValue ++
    if ev.params = [] then []
    else "\n  params=[".toList ++ ", ".toList.intercalate ev.params ++ "]".toList

mutual

/-- `format_trace_node`. -/
def formatTraceNode : TraceNode → ℕ → Text
  | ⟨funcName, durationNs, _, children⟩, indent =>
    List.replicate (indent * 2) ' ' ++ "+-".toList ++ funcName ++ " [".toList ++
      fixed3 (costMs durationNs) ++ "ms]\n".toList ++ formatTraceNodes children (indent + 1)

/-- The loop over the children. -/
def formatTraceNodes : List TraceNode → ℕ → Text
  | [], _ => []
  | child :: children, indent => formatTraceNode child indent ++ formatTraceNodes children indent

end

/-- `format_stack_event`. -/
def formatStackEvent (ev : StackEvent) : Text :=
  "func=".toList ++ ev.funcName ++ "\n".toList ++
    ev.frames.zipIdx.flatMap fun (frame, i) =>
      "  [".toList ++ decimal i ++ "] ".toList ++ frame ++ "\n".toList

/-! ## The cost -/

/-- The microseconds that are shown for a duration. -/
def shownMicros (durationNs : Word) : ℕ := thousandths (costMs durationNs)

theorem costMs_nonneg (d : Word) : 0 ≤ costMs d :=
  roundTo_nonneg 53 (div_nonneg (roundTo_nonneg 53 (Nat.cast_nonneg _)) (by norm_num))

theorem shownMicros_mono {d d' : Word} (h : d ≤ d') : shownMicros d ≤ shownMicros d' := by
  have hcast : (d.toNat : ℚ) ≤ d'.toNat := Nat.cast_le.2 (BitVec.le_def.1 h)
  have hdouble := roundTo_mono (by decide : 0 < 53) (Nat.cast_nonneg _) hcast
  have hms : costMs d ≤ costMs d' :=
    roundTo_mono (by decide) (div_nonneg (roundTo_nonneg 53 (Nat.cast_nonneg _)) (by norm_num))
      (div_le_div_of_nonneg_right hdouble (by norm_num))
  exact Int.toNat_le_toNat (nearest_mono (mul_le_mul_of_nonneg_right hms (by norm_num)))

/-- Three digits are exact to half of the last. -/
theorem abs_shownMicros_sub_le (d : Word) : |(shownMicros d : ℚ) - costMs d * 1000| ≤ 1 / 2 := by
  have hnonneg : nearest ((0 : ℤ) : ℚ) ≤ nearest (costMs d * 1000) :=
    nearest_mono (by rw [Int.cast_zero]; exact mul_nonneg (costMs_nonneg d) (by norm_num))
  rw [nearest_intCast] at hnonneg
  have hcast : ((shownMicros d : ℕ) : ℚ) = (nearest (costMs d * 1000) : ℚ) := by
    rw [shownMicros, thousandths, ← Int.cast_natCast, Int.toNat_of_nonneg hnonneg]
  rw [hcast]
  exact abs_nearest_sub_le _

/-- A rounded value is at most one part in `2 ^ 53` off. -/
theorem abs_roundTo_sub_le_mul {x : ℚ} (hx : 0 ≤ x) :
    |roundTo 53 x - x| ≤ x * (1 / 9007199254740992) := by
  have h := abs_roundTo_sub_le 53 hx
  norm_num at h ⊢
  exact h

theorem shownMicros_eq {d : Word} (hd : d.toNat < 2 ^ 53) (hhalf : d.toNat % 1000 ≠ 500) :
    shownMicros d = (d.toNat + 500) / 1000 := by
  have hms := abs_roundTo_sub_le_mul (x := (d.toNat : ℚ) / 10 ^ 6)
    (div_nonneg (Nat.cast_nonneg _) (by norm_num))
  have hcost : costMs d = roundTo 53 ((d.toNat : ℚ) / 10 ^ 6) := by
    rw [costMs, roundTo_natCast hd]
  have hlt : (d.toNat : ℚ) < 9007199254740992 := by exact_mod_cast hd
  -- the nearest microsecond is less than half of one away
  have hnear : |(d.toNat : ℤ) - 1000 * ((d.toNat + 500) / 1000 : ℕ)| ≤ 499 := by
    rw [abs_le]
    omega
  have hnear' : |(d.toNat : ℚ) - 1000 * ((d.toNat + 500) / 1000 : ℕ)| ≤ 499 := by
    exact_mod_cast hnear
  rw [← hcost, abs_le] at hms
  rw [abs_le] at hnear'
  have hnearest : nearest (costMs d * 1000) = ((d.toNat + 500) / 1000 : ℕ) := by
    apply nearest_eq_of_abs_sub_lt
    rw [abs_lt, Int.cast_natCast]
    constructor <;> linarith
  rw [shownMicros, thousandths, hnearest, Int.toNat_natCast]

/-- In nanoseconds, of any duration at all. -/
theorem abs_shownMicros_mul_sub_lt (d : Word) :
    |(shownMicros d * 1000 : ℤ) - d.toNat| < 4600 := by
  have hshown := abs_shownMicros_sub_le d
  have hdouble := abs_roundTo_sub_le_mul (Nat.cast_nonneg (α := ℚ) d.toNat)
  have hms := abs_roundTo_sub_le_mul (x := roundTo 53 (d.toNat : ℚ) / 10 ^ 6)
    (div_nonneg (roundTo_nonneg 53 (Nat.cast_nonneg _)) (by norm_num))
  have hlt : (d.toNat : ℚ) < 18446744073709551616 := by exact_mod_cast d.isLt
  rw [← costMs] at hms
  rw [abs_le] at hshown hdouble hms
  have habs : |(shownMicros d * 1000 : ℚ) - d.toNat| < 4600 := by
    rw [abs_lt]
    constructor <;> linarith
  exact_mod_cast habs

/-- **What is shown of a duration**: never less than of a shorter one, the nearest microsecond below
`2 ^ 53` nanoseconds if there is one, and always within five microseconds. -/
theorem shownMicros_spec (d : Word) :
    (∀ d', d ≤ d' → shownMicros d ≤ shownMicros d') ∧
    (d.toNat < 2 ^ 53 → d.toNat % 1000 ≠ 500 → shownMicros d = (d.toNat + 500) / 1000) ∧
    |(shownMicros d * 1000 : ℤ) - d.toNat| < 4600 :=
  ⟨fun _ => shownMicros_mono, shownMicros_eq, abs_shownMicros_mul_sub_lt d⟩

end Uatu
