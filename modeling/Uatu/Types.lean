import Mathlib.Data.BitVec

/-!
# The data types of the tool

`include/uatu/types.h`: what is known of a function, and the samples the three commands return. A
`std::string` is the list of its characters.
-/

namespace Uatu

/-- A 64-bit machine word. -/
abbrev Word := BitVec 64

/-- A virtual address. -/
abbrev Addr := BitVec 64

/-- The characters of a `std::string`. -/
abbrev Text := List Char

instance : LawfulBEq Text := inferInstance

/-- A value in hexadecimal, as `std::hex` prints it. -/
def hex (v : Word) : Text := Nat.toDigits 16 v.toNat

/-- `FuncInfo`. -/
structure FuncInfo where
  name : Text
  mangledName : Text
  /-- The link-time address, `0` when there is none. -/
  address : Addr
  /-- `0` when unknown. -/
  size : Word
  paramTypes : List Text
  returnType : Text
  hasThis : Bool
  deriving DecidableEq

/-- `WatchEvent`. -/
structure WatchEvent where
  timestampNs : Word
  durationNs : Word
  funcName : Text
  params : List Text
  retValue : Text
  isException : Bool := false
  deriving DecidableEq

/-- `TraceNode`. -/
structure TraceNode where
  funcName : Text
  durationNs : Word
  /-- The return register at the exit of the function. -/
  retRaw : Word
  children : List TraceNode := []

/-- `StackEvent`. -/
structure StackEvent where
  timestampNs : Word
  funcName : Text
  frames : List Text
  deriving DecidableEq

end Uatu
