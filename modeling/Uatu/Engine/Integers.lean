import Uatu.Engine.Rendering

/-!
# Integers in registers

A register that holds an integer narrower than it has anything in its upper bits, so what is shown
for it must depend on the lower ones only. `readsLowBits_iff` says for which types and values
`format_param_val` keeps to that: it reads signed integers at their width, but unsigned ones and
`bool` at the width of the register.
-/

namespace Uatu

/-- The sizes of the integer types. -/
inductive IntRank
  | char
  | short
  | int
  | long
  | longLong
  deriving DecidableEq

def IntRank.width : IntRank → ℕ
  | .char => 8
  | .short => 16
  | .int => 32
  | .long => 64
  | .longLong => 64

/-- The integer types of C++ on x86_64, where plain `char` is signed. -/
inductive IntType
  | bool
  | char
  | signed (rank : IntRank)
  | unsigned (rank : IntRank)
  deriving DecidableEq

namespace IntType

def width : IntType → ℕ
  | .bool => 8
  | .char => 8
  | .signed rank => rank.width
  | .unsigned rank => rank.width

/-- The names that GCC and Clang give them. -/
def spellings : IntType → List Text
  | .bool => ["bool".toList, "_Bool".toList]
  | .char => ["char".toList]
  | .signed .char => ["signed char".toList]
  | .signed .short => ["short int".toList, "short".toList]
  | .signed .int => ["int".toList]
  | .signed .long => ["long int".toList, "long".toList]
  | .signed .longLong => ["long long int".toList, "long long".toList]
  | .unsigned .char => ["unsigned char".toList]
  | .unsigned .short => ["short unsigned int".toList, "unsigned short".toList]
  | .unsigned .int => ["unsigned int".toList]
  | .unsigned .long => ["long unsigned int".toList, "unsigned long".toList]
  | .unsigned .longLong => ["long long unsigned int".toList, "unsigned long long".toList]

/-- The low bits of a register read as a value of the type. -/
def read (v : Word) : IntType → Text
  | .bool => if v.setWidth 8 ≠ 0 then "true".toList else "false".toList
  | .char => signedDecimal (signedLow 8 v)
  | .signed rank => signedDecimal (signedLow rank.width v)
  | .unsigned rank => decimal (v.setWidth rank.width).toNat

/-- How `format_param_val` shows it. -/
def shape : IntType → Shape
  | .bool => .bool
  | .char => .signed 8
  | .signed rank => .signed rank.width
  | .unsigned _ => .unsigned

theorem shape_of_mem_spellings {T : IntType} {name : Text} (h : name ∈ T.spellings) :
    Uatu.shape (stripCv name) = T.shape := by
  revert name
  rcases T with _ | _ | rank | rank
  · decide
  · decide
  · cases rank <;> decide
  · cases rank <;> decide

end IntType

/-! ## Qualified names -/

/-- The qualifiers in front of a name. -/
inductive Cv
  | const
  | volatile
  deriving DecidableEq

def Cv.text : Cv → Text
  | .const => "const ".toList
  | .volatile => "volatile ".toList

/-- A name with qualifiers in front of it. -/
def qualify (cv : List Cv) (name : Text) : Text := cv.flatMap Cv.text ++ name

theorem stripCv_qualify (cv : List Cv) (name : Text) :
    stripCv (qualify cv name) = stripCv name := by
  induction cv with
  | nil => rfl
  | cons q cv ih =>
    rw [qualify, List.flatMap_cons, List.append_assoc, ← ih]
    cases q with
    | const => exact stripCv_const _
    | volatile => exact stripCv_volatile _

/-! ## The bits that matter -/

namespace IntType

variable {T : IntType} {name : Text} {v v' : Word}

/-- What is shown for a value is the value of its low bits, and is shown for every value with the
same ones. -/
structure ReadsLowBits (T : IntType) (type : Text) (v : Word) : Prop where
  reads : formatParamVal v type = T.read v
  stable : ∀ v' : Word, v'.setWidth T.width = v.setWidth T.width →
    formatParamVal v' type = formatParamVal v type

/-- The type is read at its width, or the upper bits make no difference. -/
def Sound (v : Word) : IntType → Prop
  | .bool => v.setWidth 8 ≠ 0
  | .char => True
  | .signed _ => True
  | .unsigned rank => rank.width = 64

/-- The upper bits are clear, where they are read. -/
def Clean (v : Word) : IntType → Prop
  | .bool => v = 0 ∨ v.setWidth 8 ≠ 0
  | .char => True
  | .signed _ => True
  | .unsigned rank => v.toNat < 2 ^ rank.width

theorem text_shape_eq_read_iff : T.shape.text v = T.read v ↔ T.Clean v := by
  rcases T with _ | _ | rank | rank
  · change (if v ≠ 0 then "true".toList else "false".toList) =
      (if v.setWidth 8 ≠ 0 then "true".toList else "false".toList) ↔ v = 0 ∨ v.setWidth 8 ≠ 0
    by_cases hv : v = 0
    · subst hv
      exact iff_of_true rfl (.inl rfl)
    · rw [if_pos hv]
      by_cases hlow : v.setWidth 8 ≠ 0
      · rw [if_pos hlow]
        exact iff_of_true rfl (.inr hlow)
      · rw [if_neg hlow]
        exact iff_of_false (by decide) (not_or.2 ⟨hv, hlow⟩)
  · exact iff_of_true rfl trivial
  · exact iff_of_true rfl trivial
  · change decimal v.toNat = decimal (v.setWidth rank.width).toNat ↔ v.toNat < 2 ^ rank.width
    rw [BitVec.toNat_setWidth]
    constructor
    · intro h
      rw [decimal_inj h]
      exact Nat.mod_lt _ (Nat.two_pow_pos _)
    · intro h
      rw [Nat.mod_eq_of_lt h]

/-- A value that differs in the uppermost bit only. -/
theorem exists_alike {width : ℕ} (hwidth : width < 64) (v : Word) :
    ∃ v' : Word, v'.setWidth width = v.setWidth width ∧ v'.toNat ≠ v.toNat := by
  have hdvd : 2 ^ width ∣ 2 ^ 63 := Nat.pow_dvd_pow 2 (by omega)
  refine ⟨v + BitVec.ofNat 64 (2 ^ 63), ?_, ?_⟩
  · apply BitVec.eq_of_toNat_eq
    rw [BitVec.toNat_setWidth, BitVec.toNat_setWidth, BitVec.toNat_add,
      Nat.mod_mod_of_dvd _ (Nat.pow_dvd_pow 2 (by omega)), Nat.add_mod]
    rw [show (BitVec.ofNat 64 (2 ^ 63)).toNat = 2 ^ 63 from rfl, Nat.mod_eq_zero_of_dvd hdvd,
      Nat.add_zero, Nat.mod_mod]
  · rw [BitVec.toNat_add, show (BitVec.ofNat 64 (2 ^ 63)).toNat = 2 ^ 63 from rfl]
    omega

/-- Values that agree in the low bits are shown alike. -/
theorem text_shape_stable_iff :
    (∀ v' : Word, v'.setWidth T.width = v.setWidth T.width → T.shape.text v' = T.shape.text v) ↔
      T.Sound v := by
  rcases T with _ | _ | rank | rank
  · change (∀ v' : Word, v'.setWidth 8 = v.setWidth 8 →
      (if v' ≠ 0 then "true".toList else "false".toList) =
        if v ≠ 0 then "true".toList else "false".toList) ↔ v.setWidth 8 ≠ 0
    constructor
    · intro h hlow
      have hzero := h 0 (by rw [hlow]; rfl)
      have hupper := h 256 (by rw [hlow]; rfl)
      rw [← hupper] at hzero
      exact absurd hzero (by decide)
    · intro hlow v' hv'
      rw [if_pos, if_pos]
      · rintro rfl
        exact hlow rfl
      · rintro rfl
        exact hlow (hv'.symm.trans rfl)
  · refine iff_of_true (fun v' hv' => ?_) trivial
    exact congrArg (fun b : BitVec 8 => signedDecimal b.toInt) hv'
  · refine iff_of_true (fun v' hv' => ?_) trivial
    exact congrArg (fun b : BitVec rank.width => signedDecimal b.toInt) hv'
  · constructor
    · intro h
      change rank.width = 64
      by_contra hwidth
      have hlt : rank.width < 64 := by
        cases rank <;> first | decide | exact absurd rfl hwidth
      obtain ⟨v', hv', hne⟩ := exists_alike hlt v
      exact hne (decimal_inj (h v' hv'))
    · intro hwidth v' hv'
      change v'.setWidth rank.width = v.setWidth rank.width at hv'
      rw [show rank.width = 64 from hwidth, BitVec.setWidth_eq, BitVec.setWidth_eq] at hv'
      rw [hv']

/-- **What the upper bits do.** A value is shown as its low bits, and like every other with these
low bits, if the type is signed or as wide as the register, or if it is `bool` with a bit set in
the low byte. As its low bits alone, a value is shown if the upper ones are clear. -/
theorem readsLowBits_iff (hname : name ∈ T.spellings) (cv : List Cv) (v : Word) :
    (T.ReadsLowBits (qualify cv name) v ↔ T.Sound v) ∧
      (formatParamVal v (qualify cv name) = T.read v ↔ T.Clean v) := by
  have hshown : ∀ v, formatParamVal v (qualify cv name) = T.shape.text v := fun v => by
    rw [formatParamVal_eq, stripCv_qualify, shape_of_mem_spellings hname]
  have hclean : T.Sound v → T.Clean v := by
    rcases T with _ | _ | rank | rank
    · exact Or.inr
    · exact id
    · exact id
    · intro hwidth
      change v.toNat < 2 ^ rank.width
      rw [show rank.width = 64 from hwidth]
      exact v.isLt
  refine ⟨⟨fun h => ?_, fun h => ⟨?_, ?_⟩⟩, ?_⟩
  · rw [← text_shape_stable_iff]
    intro v' hv'
    rw [← hshown, ← hshown]
    exact h.stable v' hv'
  · rw [hshown]
    exact text_shape_eq_read_iff.2 (hclean h)
  · intro v' hv'
    rw [hshown, hshown]
    exact text_shape_stable_iff.2 h v' hv'
  · rw [hshown]
    exact text_shape_eq_read_iff

theorem readsLowBits_short :
    ReadsLowBits (.signed .short) "const short int".toList 0xDEADFFFF ∧
      formatParamVal 0xDEADFFFF "const short int".toList = "-1".toList := by
  have hname : "short int".toList ∈ (signed .short).spellings := by decide
  have h := readsLowBits_iff hname [.const] 0xDEADFFFF
  exact ⟨h.1.2 trivial, h.2.2 trivial⟩

/-- Two registers that hold the same `unsigned char`, and one that holds `false`. -/
theorem not_readsLowBits_unsigned :
    formatParamVal 0x105 "unsigned char".toList = "261".toList ∧
    formatParamVal 0x005 "unsigned char".toList = "5".toList ∧
    ¬ ReadsLowBits (.unsigned .char) "unsigned char".toList 0x105 ∧
    formatParamVal 0x100 "bool".toList = "true".toList ∧
    ¬ ReadsLowBits .bool "bool".toList 0x100 := by
  refine ⟨by decide, by decide, fun h => ?_, by decide, fun h => ?_⟩
  · exact absurd h.reads (by decide)
  · exact absurd h.reads (by decide)

end IntType

end Uatu
