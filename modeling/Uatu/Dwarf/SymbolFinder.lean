import Uatu.Types
import Mathlib.Data.List.AList

/-!
# Symbol lookup

`SymbolFinder` of `src/dwarf/symbol_finder.cpp` over the functions it has collected (`cache_`, in
the order of the debug information), with the two indexes `all()` builds from them: the first
function of each name and the first function at each address.
-/

namespace Uatu

/-- `try_emplace` of a standard map: a key that is there keeps its value. -/
def tryEmplace {κ β : Type} [DecidableEq κ] (m : AList fun _ : κ => β) (k : κ) (v : β) :
    AList fun _ : κ => β :=
  if k ∈ m then m else m.insert k v

/-- `SymbolFinder`, after its cache is populated. -/
structure SymbolFinder where
  cache : List FuncInfo

namespace SymbolFinder

variable (finder : SymbolFinder)

/-- `idx_by_name_`. -/
def idxByName : AList fun _ : Text => ℕ :=
  finder.cache.zipIdx.foldl (fun m p => tryEmplace m p.1.name p.2) ∅

/-- `idx_by_addr_`. -/
def idxByAddr : AList fun _ : Addr => ℕ :=
  finder.cache.zipIdx.foldl
    (fun m p => if p.1.address ≠ 0 then tryEmplace m p.1.address p.2 else m) ∅

/-- `find`. -/
def find (name : Text) : Option FuncInfo :=
  (finder.idxByName.lookup name).bind (finder.cache[·]?)

/-- The entry of an address map just before `upper_bound(addr)`: the one with the largest key that
is not above `addr`. -/
def beforeUpperBound (m : AList fun _ : Addr => ℕ) (addr : Addr) : Option ℕ :=
  ((m.keys.filter (· ≤ addr)).foldl
    (fun best k => some (best.elim k fun b => if b < k then k else b)) none).bind m.lookup

/-- `lookup_by_addr`. -/
def lookupByAddr (addr : Addr) : Option Text := do
  let i ← beforeUpperBound finder.idxByAddr addr
  let fi ← finder.cache[i]?
  if fi.address = addr then some fi.name
  else if fi.size > 0 ∧ addr < fi.address + fi.size then some fi.name
  else none

end SymbolFinder

end Uatu
