import Uatu.Engine.Attribution
import Uatu.Engine.Rendering
import Uatu.Foundations.Registers

/-!
# The parameters of a call, as they are shown

Two loops count the registers of a call: the one of the entry callback, which reads the strings of
`char*` parameters, and the one of `format_params`. Together they show each parameter by its type
and its register alone (`params_exitEvent`).
-/

namespace Uatu

open Registers

/-- The record of an entry with these registers. -/
def RawEvent.entry (args : Args) : RawEvent := ⟨0, 0, args, 0, 0, 0, false⟩

/-- The record of an exit. -/
def RawEvent.exit : RawEvent := ⟨0, 0, fun _ => 0, 0, 0, 0, true⟩

/-! ## One parameter -/

/-- A text in quotes. -/
def quoted (str : Text) : Text := "\"".toList ++ str ++ "\"".toList

/-- A register that `format_params` does not know the value of. -/
def xmmText (k : ℕ) : Text := "<xmm".toList ++ decimal k ++ ">".toList

/-- What is shown for a parameter of this type in a register that holds `v`. -/
def shownArg (mem : ProcMem) (v : Word) (type : Text) : Text :=
  let str := if isCharPtr type = true ∧ v ≠ 0 then readProcMemStr mem v 256 else []
  if str ≠ [] then quoted str else formatParamVal v type

/-- What is shown for a parameter of this type for which this number of registers has been
counted. -/
def paramText (mem : ProcMem) (args : Args) (type : Text) (n : ℕ) : Text :=
  if isFpParam type then xmmText n
  else if h : n < 6 then shownArg mem (args ⟨n, h⟩) type
  else "?".toList

/-- The numbers from which registers are counted. -/
def FuncInfo.firstRegister (fi : FuncInfo) : Bool → ℕ
  | true => 0
  | false => if fi.hasThis then 1 else 0

section

variable {mem : ProcMem} {args : Args} {types : List Text} {intReg intR fpReg : ℕ}

/-- The two loops count alike, as long as there are registers. -/
theorem formatParamsFrom_eq {next : Bool → ℕ} (hfp : next true = fpReg) (hint : next false = intR)
    (hreg : intReg = intR ∨ 6 ≤ intReg ∧ 6 ≤ intR) :
    formatParamsFrom args types (resolveStrsFrom mem args types intR) intReg fpReg =
      List.zipWith (paramText mem args) types (numbers isFpParam next types) := by
  induction types generalizing next intReg intR fpReg with
  | nil => rfl
  | cons t types ih =>
    rw [formatParamsFrom, resolveStrsFrom, numbers, List.zipWith_cons_cons, paramText]
    by_cases ht : isFpParam t
    · simp only [if_pos ht, List.tail_cons]
      rw [ht, hfp, ih (Function.update_self ..) ((Function.update_of_ne (by decide) ..).trans hint)
        hreg]
      rfl
    · simp only [if_neg ht, List.tail_cons, List.head?_cons, Option.getD_some]
      rw [Bool.not_eq_true] at ht
      have hrest : ∀ {k : ℕ}, k = intR + 1 ∨ 6 ≤ k ∧ 6 ≤ intR + 1 →
          formatParamsFrom args types (resolveStrsFrom mem args types (intR + 1)) k fpReg =
            List.zipWith (paramText mem args) types
              (numbers isFpParam (Function.update next false (next false + 1)) types) :=
        fun hk => ih ((Function.update_of_ne (by decide) ..).trans hfp)
          (by rw [Function.update_self, hint]) hk
      rw [ht, hint] at *
      rcases hreg with rfl | ⟨hregs, hregs'⟩
      · by_cases h : intReg < 6
        · rw [dif_pos h, dif_pos h, dif_pos h, hrest (.inl rfl)]
          rfl
        · rw [dif_neg h, dif_neg h, hrest (.inr (by omega))]
      · rw [dif_neg (by omega), dif_neg (by omega), hrest (.inr (by omega))]

end

/-- **Each parameter is shown on its own**, by its type and by how many of its kind come before
it. -/
theorem params_exitEvent (raw : RawEvent) (idx : ℕ) (fi : FuncInfo) (d : Delivery) (i : ℕ) :
    (Watch.exitEvent raw idx fi (some (Watch.entryData d idx fi))).params[i]? =
      fi.paramTypes[i]?.map fun t => paramText d.2 d.1.args t
        (fi.firstRegister (isFpParam t) +
          (fi.paramTypes.take i).countP (isFpParam · = isFpParam t)) := by
  have hparams : (Watch.exitEvent raw idx fi (some (Watch.entryData d idx fi))).params =
      List.zipWith (paramText d.2 d.1.args) fi.paramTypes
        (numbers isFpParam fi.firstRegister fi.paramTypes) := by
    simp only [Watch.exitEvent, Watch.exitParams, Watch.entryData, if_true, formatParams,
      resolveStrs]
    exact formatParamsFrom_eq rfl rfl (.inl rfl)
  rw [hparams, List.getElem?_zipWith, getElem?_numbers]
  cases fi.paramTypes[i]? <;> rfl

/-! ## Texts -/

variable {v : Word} {type : Text}

theorem xmmText_inj {m n : ℕ} (h : xmmText m = xmmText n) : m = n :=
  decimal_inj (List.append_cancel_left (List.append_cancel_right h))

/-- The first character of a value is no mark of a register or of the stack. -/
theorem head_decimal (n : ℕ) : ∃ a s, decimal n = a :: s ∧ a ∉ ['<', '?'] := by
  obtain ⟨a, s, hs⟩ := List.exists_cons_of_ne_nil (decimal_ne_nil n)
  refine ⟨a, s, hs, fun ha => ?_⟩
  have hdigit : a.isDigit := isDigit_of_mem_decimal (n := n) (by rw [hs]; exact List.mem_cons_self)
  rcases List.mem_cons.1 ha with rfl | ha
  · cases hdigit
  · rw [List.mem_singleton.1 ha] at hdigit
    cases hdigit

theorem head_formatParamVal : ∃ a s, formatParamVal v type = a :: s ∧ a ∉ ['<', '?'] := by
  rw [formatParamVal_eq]
  cases shape (stripCv type) with
  | bool =>
    rw [Shape.text]
    split_ifs <;> exact ⟨_, _, rfl, by decide⟩
  | signed width =>
    rw [Shape.text, signedDecimal]
    split_ifs
    · exact ⟨_, _, rfl, by decide⟩
    · exact head_decimal _
  | pointer chars =>
    rw [Shape.text]
    split_ifs <;> exact ⟨_, _, rfl, by decide⟩
  | reference => exact ⟨_, _, rfl, by decide⟩
  | unsigned => exact head_decimal _

theorem head_shownArg {mem : ProcMem} : ∃ a s, shownArg mem v type = a :: s ∧ a ∉ ['<', '?'] := by
  rw [shownArg]
  split_ifs
  · exact ⟨_, _, rfl, by decide⟩
  · exact head_formatParamVal
  · exact ⟨_, _, rfl, by decide⟩
  · exact head_formatParamVal

theorem shownArg_ne_cons {mem : ProcMem} {a : Char} (ha : a ∈ ['<', '?']) (s : Text) :
    shownArg mem v type ≠ a :: s := by
  obtain ⟨a', s', hs, ha'⟩ := @head_shownArg v type mem
  rw [hs]
  rintro ⟨⟩
  exact ha' ha

theorem shownArg_ne_xmmText {mem : ProcMem} (k : ℕ) : shownArg mem v type ≠ xmmText k :=
  shownArg_ne_cons (by decide) _

theorem shownArg_ne_question {mem : ProcMem} : shownArg mem v type ≠ "?".toList :=
  shownArg_ne_cons (by decide) _

theorem xmmText_ne_question (k : ℕ) : xmmText k ≠ "?".toList := by
  intro h
  cases h

/-- There are two values that are shown differently. -/
theorem formatParamVal_zero_ne_one : formatParamVal 0 type ≠ formatParamVal 1 type := by
  have hshapes : ∀ s : Text, shape s ∈ [.bool, .signed 32, .signed 16, .signed 8, .signed 64,
      .pointer true, .pointer false, .reference, .unsigned] := by
    intro s
    rw [shape]
    generalize decide ("char".toList <:+: s) = chars
    cases chars <;> split_ifs <;> decide
  have hdiffer : ∀ sh ∈ [Shape.bool, .signed 32, .signed 16, .signed 8, .signed 64,
      .pointer true, .pointer false, .reference, .unsigned], sh.text 0 ≠ sh.text 1 := by decide
  rw [formatParamVal_eq, formatParamVal_eq]
  exact hdiffer _ (hshapes _)

/-- A register is seen in what is shown for it. -/
theorem exists_shownArg_ne (type : Text) : ∃ v v' : Word,
    shownArg .unreadable v type ≠ shownArg .unreadable v' type := by
  refine ⟨0, 1, ?_⟩
  have hshown : ∀ v, shownArg .unreadable v type = formatParamVal v type := by
    intro v
    have hread : readProcMemStr .unreadable v 256 = [] := by
      rw [readProcMemStr]
      split_ifs <;> rfl
    rw [shownArg, hread, ite_self]
    exact if_neg (not_not.2 rfl)
  rw [hshown, hshown]
  exact formatParamVal_zero_ne_one

end Uatu
