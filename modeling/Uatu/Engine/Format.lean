import Uatu.Types

/-!
# Values in text

The helpers of `src/engine/attach_engine.cpp` that show registers: a value by the name of its type,
the string at a pointer, and the parameters of a call by the calling convention of x86_64.
-/

namespace Uatu

/-- The registers of the first six integer parameters. -/
abbrev Args := Fin 6 → Word

/-- `/proc/<pid>/mem` at one moment: the bytes that a read of so many at an address yields, none
when it fails. -/
structure ProcMem where
  pread : Addr → ℕ → List (BitVec 8)
  pread_le : ∀ addr n, (pread addr n).length ≤ n

/-- `std::to_string` of an unsigned value. -/
def decimal (n : ℕ) : Text := Nat.toDigits 10 n

/-- `std::to_string` of a signed value. -/
def signedDecimal (i : ℤ) : Text := if i < 0 then '-' :: decimal i.natAbs else decimal i.natAbs

/-- `strip_cv`. -/
def stripCv : Text → Text
  | 'c' :: 'o' :: 'n' :: 's' :: 't' :: ' ' :: s => stripCv s
  | 'v' :: 'o' :: 'l' :: 'a' :: 't' :: 'i' :: 'l' :: 'e' :: ' ' :: s => stripCv s
  | s => s

/-- `is_fp_param`. -/
def isFpParam (type : Text) : Bool :=
  stripCv type ∈ ["float".toList, "double".toList, "long double".toList]

/-- The low `w` bits of a register as a signed number. -/
def signedLow (w : ℕ) (v : Word) : ℤ := (v.setWidth w).toInt

/-- `format_param_val`. -/
def formatParamVal (v : Word) (type : Text) : Text :=
  let s := stripCv type
  if s ∈ ["bool".toList, "_Bool".toList] then
    if v ≠ 0 then "true".toList else "false".toList
  else if s ∈ ["int".toList, "signed".toList, "signed int".toList] then
    signedDecimal (signedLow 32 v)
  else if s ∈ ["short".toList, "short int".toList, "signed short".toList,
      "signed short int".toList] then
    signedDecimal (signedLow 16 v)
  else if s ∈ ["char".toList, "signed char".toList] then
    signedDecimal (signedLow 8 v)
  else if s ∈ ["long".toList, "long int".toList, "signed long".toList, "signed long int".toList,
      "long long".toList, "long long int".toList] then
    signedDecimal v.toInt
  else if s.getLast? = some '*' then
    if v = 0 then "nullptr".toList
    else if "char".toList <:+: s then "\"<0x".toList ++ hex v ++ ">\"".toList
    else "0x".toList ++ hex v
  else if s.getLast? = some '&' then "&0x".toList ++ hex v
  else decimal v.toNat

/-- `format_int_val`. -/
def formatIntVal (v : Word) (type : Text) : Text := formatParamVal v type

/-- `is_char_ptr`. -/
def isCharPtr (type : Text) : Bool := stripCv type ∈ ["char*".toList, "char *".toList]

/-- A byte as it is shown in a string. -/
def escape (c : BitVec 8) : Text :=
  if c = 0x22 then "\\\"".toList
  else if c = 0x5c then "\\\\".toList
  else if 0x20 ≤ c ∧ c < 0x7f then [Char.ofNat c.toNat]
  else "\\x".toList ++ (Nat.toDigits 16 c.toNat).leftpad 2 '0'

/-- `read_proc_mem_str`. -/
def readProcMemStr (mem : ProcMem) (addr : Addr) (maxLen : ℕ) : Text :=
  if addr = 0 then [] else ((mem.pread addr maxLen).takeWhile (· ≠ 0)).flatMap escape

/-- The loop of `format_params` from one parameter on: the strings resolved for this parameter and
those after it, the next integer register and the number of floating-point ones up to here. -/
def formatParamsFrom (args : Args) : List Text → List Text → ℕ → ℕ → List Text
  | [], _, _, _ => []
  | t :: ts, strVals, intReg, fpReg =>
    if isFpParam t then
      ("<xmm".toList ++ decimal fpReg ++ ">".toList) ::
        formatParamsFrom args ts strVals.tail intReg (fpReg + 1)
    else if h : intReg < 6 then
      let str := strVals.head?.getD []
      (if str ≠ [] then "\"".toList ++ str ++ "\"".toList
        else formatParamVal (args ⟨intReg, h⟩) t) ::
        formatParamsFrom args ts strVals.tail (intReg + 1) fpReg
    else "?".toList :: formatParamsFrom args ts strVals.tail intReg fpReg

/-- `format_params`. -/
def formatParams (paramTypes : List Text) (args : Args) (hasThis : Bool) (strVals : List Text) :
    List Text :=
  formatParamsFrom args paramTypes strVals (if hasThis then 1 else 0) 0

theorem length_formatParamsFrom {args : Args} {types strVals : List Text} {intReg fpReg : ℕ} :
    (formatParamsFrom args types strVals intReg fpReg).length = types.length := by
  induction types generalizing strVals intReg fpReg with
  | nil => rfl
  | cons t ts ih =>
    unfold formatParamsFrom
    split_ifs <;> simp [ih]

/-- Every parameter is shown. -/
theorem length_formatParams {types strVals : List Text} {args : Args} {hasThis : Bool} :
    (formatParams types args hasThis strVals).length = types.length :=
  length_formatParamsFrom

/-- The loop of the entry callback that resolves the strings of `char*` parameters, from one
parameter on: the next integer register. -/
def resolveStrsFrom (mem : ProcMem) (args : Args) : List Text → ℕ → List Text
  | [], _ => []
  | t :: ts, intR =>
    if isFpParam t then [] :: resolveStrsFrom mem args ts intR
    else
      (if h : intR < 6 then
        if isCharPtr t = true ∧ args ⟨intR, h⟩ ≠ 0 then readProcMemStr mem (args ⟨intR, h⟩) 256
        else []
      else []) :: resolveStrsFrom mem args ts (intR + 1)

/-- The strings of the `char*` parameters of a call, by the position of the parameter. -/
def resolveStrs (mem : ProcMem) (args : Args) (fi : FuncInfo) : List Text :=
  resolveStrsFrom mem args fi.paramTypes (if fi.hasThis then 1 else 0)

end Uatu
