import Uatu.Engine.Format

/-!
# How a value is shown

`format_param_val` compares the name of a type, without its leading qualifiers, with one list of
names after the other. `Shape` is the outcome of these comparisons: what is shown of a value depends
on the type only through it (`formatParamVal_eq`).
-/

namespace Uatu

/-! ## Qualifiers -/

section StripCv

theorem const_toList : "const ".toList = ['c', 'o', 'n', 's', 't', ' '] := by decide

theorem volatile_toList :
    "volatile ".toList = ['v', 'o', 'l', 'a', 't', 'i', 'l', 'e', ' '] := by decide

theorem stripCv_const (s : Text) : stripCv ("const ".toList ++ s) = stripCv s := by
  rw [const_toList]
  rfl

theorem stripCv_volatile (s : Text) : stripCv ("volatile ".toList ++ s) = stripCv s := by
  rw [volatile_toList]
  rfl

theorem stripCv_unqualified {s : Text} (hc : ¬ "const ".toList <+: s)
    (hv : ¬ "volatile ".toList <+: s) : stripCv s = s := by
  rw [stripCv.eq_3]
  · rintro t rfl
    exact hc ⟨t, by rw [const_toList]; rfl⟩
  · rintro t rfl
    exact hv ⟨t, by rw [volatile_toList]; rfl⟩

/-- The three cases of a name. -/
theorem stripCv_cases {P : Text → Prop} (hc : ∀ s, P s → P ("const ".toList ++ s))
    (hv : ∀ s, P s → P ("volatile ".toList ++ s))
    (hs : ∀ s, ¬ "const ".toList <+: s → ¬ "volatile ".toList <+: s → P s) (s : Text) : P s := by
  induction s using stripCv.induct with
  | case1 s ih =>
    have h := hc s ih
    rwa [const_toList] at h
  | case2 s ih =>
    have h := hv s ih
    rwa [volatile_toList] at h
  | case3 s hnc hnv =>
    apply hs
    · rintro ⟨t, rfl⟩
      exact hnc t (by rw [const_toList]; rfl)
    · rintro ⟨t, rfl⟩
      exact hnv t (by rw [volatile_toList]; rfl)

/-- A mark after the name stays there. -/
theorem stripCv_concat {a : Char} (hac : a ∉ "const ".toList) (hav : a ∉ "volatile ".toList)
    (s : Text) : stripCv (s ++ [a]) = stripCv s ++ [a] := by
  have hstart : ∀ {p s : Text}, a ∉ p → p <+: s ++ [a] → p <+: s := by
    intro p s hap h
    rcases List.prefix_concat_iff.1 h with rfl | h
    · exact absurd (List.mem_append_right s (List.mem_singleton_self a)) hap
    · exact h
  induction s using stripCv_cases with
  | hc s ih => rw [List.append_assoc, stripCv_const, stripCv_const, ih]
  | hv s ih => rw [List.append_assoc, stripCv_volatile, stripCv_volatile, ih]
  | hs s hnc hnv =>
    rw [stripCv_unqualified hnc hnv, stripCv_unqualified]
    · exact fun h => hnc (hstart hac h)
    · exact fun h => hnv (hstart hav h)

end StripCv

/-! ## Numerals -/

theorem isDigit_of_mem_decimal {n : ℕ} {a : Char} (ha : a ∈ decimal n) : a.isDigit :=
  Nat.isDigit_of_mem_toDigits (by decide) (by decide) ha

theorem decimal_ne_nil (n : ℕ) : decimal n ≠ [] := Nat.toDigits_ne_nil

/-- A numeral has one value. -/
theorem decimal_inj {m n : ℕ} (h : decimal m = decimal n) : m = n := by
  have hval := congrArg (fun ds => Nat.ofDigitChars 10 ds 0) h
  simpa only [decimal, Nat.ofDigitChars_ten_toDigits] using hval

/-- A text with another character in it is not a numeral. -/
theorem ne_decimal {s : Text} {a : Char} (ha : a ∈ s) (hdigit : a.isDigit = false) (n : ℕ) :
    s ≠ decimal n := by
  rintro rfl
  rw [isDigit_of_mem_decimal ha] at hdigit
  cases hdigit

theorem signedDecimal_natCast (n : ℕ) : signedDecimal n = decimal n := by
  rw [signedDecimal, if_neg (by omega), Int.natAbs_natCast]

theorem signedDecimal_eq_decimal_iff {i : ℤ} {n : ℕ} : signedDecimal i = decimal n ↔ i = n := by
  constructor
  · intro h
    rw [signedDecimal] at h
    split_ifs at h with hneg
    · exact absurd h (ne_decimal (List.mem_cons_self ..) (by decide) n)
    · have hval := decimal_inj h
      omega
  · rintro rfl
    exact signedDecimal_natCast n

/-! ## The outcome of the comparisons -/

/-- How the values of a type are shown. -/
inductive Shape
  | bool
  /-- As a signed number of this width. -/
  | signed (width : ℕ)
  /-- With marks around it if it may point to characters. -/
  | pointer (chars : Bool)
  | reference
  | unsigned
  deriving DecidableEq

/-- The way that is chosen by the name of a type without qualifiers. -/
def shape (s : Text) : Shape :=
  if s ∈ ["bool".toList, "_Bool".toList] then .bool
  else if s ∈ ["int".toList, "signed".toList, "signed int".toList] then .signed 32
  else if s ∈ ["short".toList, "short int".toList, "signed short".toList,
      "signed short int".toList] then .signed 16
  else if s ∈ ["char".toList, "signed char".toList] then .signed 8
  else if s ∈ ["long".toList, "long int".toList, "signed long".toList, "signed long int".toList,
      "long long".toList, "long long int".toList] then .signed 64
  else if s.getLast? = some '*' then .pointer ("char".toList <:+: s)
  else if s.getLast? = some '&' then .reference
  else .unsigned

/-- A value shown in this way. -/
def Shape.text (v : Word) : Shape → Text
  | .bool => if v ≠ 0 then "true".toList else "false".toList
  | .signed width => signedDecimal (signedLow width v)
  | .pointer chars =>
    if v = 0 then "nullptr".toList
    else if chars then "\"<0x".toList ++ hex v ++ ">\"".toList
    else "0x".toList ++ hex v
  | .reference => "&0x".toList ++ hex v
  | .unsigned => decimal v.toNat

theorem formatParamVal_eq (v : Word) (type : Text) :
    formatParamVal v type = (shape (stripCv type)).text v := by
  have hlong : signedLow 64 v = v.toInt := by rw [signedLow, BitVec.setWidth_eq]
  simp only [formatParamVal, shape, apply_ite (Shape.text v)]
  simp only [Shape.text, hlong, decide_eq_true_eq]

end Uatu
