import Uatu.Dwarf.SymbolFinder
import Uatu.Foundations.Index
import Mathlib.Data.List.Find
import Mathlib.Data.Nat.Basic

/-!
# The lookups as linear scans

The two indexes of `SymbolFinder` find what a scan of the collected functions finds: `find` the
first function of a name and, in a program whose functions are laid out apart, `lookup_by_addr` the
first function whose range an address is in (`lookups_scan`).
-/

namespace Uatu

/-- A function as `process_subprogram` collects it: it has an address, and its end is an address. -/
structure FuncInfo.Collected (fi : FuncInfo) : Prop where
  address_ne : fi.address ≠ 0
  fits : fi.address.toNat + fi.size.toNat < 2 ^ 64

/-- The address is the function's or lies in its range. -/
def FuncInfo.Covers (fi : FuncInfo) (addr : Addr) : Prop :=
  fi.address = addr ∨
    fi.address ≤ addr ∧ addr.toNat < fi.address.toNat + fi.size.toNat

instance (fi : FuncInfo) (addr : Addr) : Decidable (fi.Covers addr) :=
  inferInstanceAs (Decidable (_ ∨ _))

/-- The layout of a linker: no function starts inside another, and functions that start together
have one size. -/
structure LaidOut (l : List FuncInfo) : Prop where
  apart : ∀ f ∈ l, ∀ g ∈ l, f.address ≠ g.address →
    ¬ (f.address ≤ g.address ∧ g.address.toNat < f.address.toNat + f.size.toNat)
  sizes : ∀ f ∈ l, ∀ g ∈ l, f.address = g.address → f.size = g.size

namespace SymbolFinder

variable {finder : SymbolFinder}

/-! ## The two indexes -/

/-- What an index of the positions finds, in the cache. -/
theorem bind_lookup_insertNew {κ : Type} [DecidableEq κ] (key : FuncInfo → κ)
    (l : List FuncInfo) (k : κ) :
    ((Index.insertNew (fun p : FuncInfo × ℕ => key p.1) Prod.snd l.zipIdx ∅).lookup k).bind
      (l[·]?) = l.find? fun fi => key fi = k := by
  have hscan : (l.find? fun fi => key fi = k) =
      (l.zipIdx.find? fun p => key p.1 = k).map Prod.fst := by
    conv_lhs => rw [← List.zipIdx_map_fst 0 l, List.find?_map]
    rfl
  rw [Index.lookup_insertNew, AList.lookup_empty, Option.none_or, hscan]
  cases hfind : l.zipIdx.find? fun p => key p.1 = k with
  | none => rfl
  | some p => exact List.mk_mem_zipIdx_iff_getElem?.1 (List.mem_of_find?_eq_some hfind)

/-- **`find` is a scan** for the first function of a name. -/
theorem find_eq (name : Text) : finder.find name = finder.cache.find? fun fi => fi.name = name :=
  bind_lookup_insertNew (·.name) finder.cache name

theorem idxByAddr_eq (h : ∀ fi ∈ finder.cache, fi.address ≠ 0) : finder.idxByAddr =
    Index.insertNew (fun p : FuncInfo × ℕ => p.1.address) Prod.snd finder.cache.zipIdx ∅ := by
  refine List.foldl_ext _ _ _ fun m p hp => ?_
  exact if_pos (h p.1 (List.fst_mem_of_mem_zipIdx hp))

theorem mem_idxByAddr (h : ∀ fi ∈ finder.cache, fi.address ≠ 0) {a : Addr} :
    a ∈ finder.idxByAddr ↔ ∃ fi ∈ finder.cache, fi.address = a := by
  rw [idxByAddr_eq h, Index.mem_insertNew]
  constructor
  · rintro (hm | ⟨p, hp, rfl⟩)
    · simp at hm
    · exact ⟨p.1, List.fst_mem_of_mem_zipIdx hp, rfl⟩
  · rintro ⟨fi, hfi, rfl⟩
    obtain ⟨i, hi⟩ := List.getElem?_of_mem hfi
    exact .inr ⟨(fi, i), List.mk_mem_zipIdx_iff_getElem?.2 hi, rfl⟩

/-! ## The search in the addresses -/

/-- The largest element of a list, as a loop finds it. -/
theorem foldl_max (ks : List Addr) :
    match ks.foldl (fun best k => some (best.elim k fun b => if b < k then k else b)) none with
    | none => ks = []
    | some b => b ∈ ks ∧ ∀ k ∈ ks, k ≤ b := by
  induction ks using List.reverseRecOn with
  | nil => rfl
  | append_singleton ks k ih =>
    rw [List.foldl_append, List.foldl_cons, List.foldl_nil]
    cases hbest : ks.foldl (fun best k => some (best.elim k fun b => if b < k then k else b))
      none with
    | none =>
      rw [hbest] at ih
      subst ih
      exact ⟨by simp, by simp⟩
    | some b =>
      rw [hbest] at ih
      obtain ⟨hb, hmax⟩ := ih
      simp only [Option.elim_some]
      split_ifs with hlt
      · refine ⟨by simp, fun k' hk' => ?_⟩
        obtain hk' | hk' := List.mem_append.1 hk'
        · have hle := hmax k' hk'
          bv_omega
        · exact List.mem_singleton.1 hk' ▸ BitVec.le_refl _
      · refine ⟨List.mem_append_left _ hb, fun k' hk' => ?_⟩
        obtain hk' | hk' := List.mem_append.1 hk'
        · exact hmax k' hk'
        · exact List.mem_singleton.1 hk' ▸ BitVec.not_lt.1 hlt

/-- The first of the functions that start last at or before the address. -/
structure Floor (l : List FuncInfo) (addr : Addr) (g : FuncInfo) : Prop where
  le : g.address ≤ addr
  max : ∀ f ∈ l, f.address ≤ addr → f.address ≤ g.address
  first : l.find? (fun f => f.address = g.address) = some g

/-- What is found before `upper_bound`. -/
theorem bind_beforeUpperBound (h : ∀ fi ∈ finder.cache, fi.address ≠ 0) (addr : Addr) :
    match (beforeUpperBound finder.idxByAddr addr).bind (finder.cache[·]?) with
    | none => ∀ fi ∈ finder.cache, ¬ fi.address ≤ addr
    | some g => Floor finder.cache addr g := by
  have hmax := foldl_max (finder.idxByAddr.keys.filter (· ≤ addr))
  have hmem : ∀ fi ∈ finder.cache, fi.address ≤ addr →
      fi.address ∈ finder.idxByAddr.keys.filter (· ≤ addr) := fun fi hfi hle =>
    List.mem_filter.2 ⟨AList.mem_keys.1 ((mem_idxByAddr h).2 ⟨fi, hfi, rfl⟩), by simpa⟩
  rw [beforeUpperBound]
  cases hbest : (finder.idxByAddr.keys.filter (· ≤ addr)).foldl
    (fun best k => some (best.elim k fun b => if b < k then k else b)) none with
  | none =>
    rw [hbest] at hmax
    intro fi hfi hle
    exact List.not_mem_nil (hmax ▸ hmem fi hfi hle)
  | some start =>
    rw [hbest] at hmax
    obtain ⟨hkey, hle⟩ := List.mem_filter.1 hmax.1
    obtain ⟨f, hf, rfl⟩ := (mem_idxByAddr h).1 (AList.mem_keys.2 hkey)
    have hscan := bind_lookup_insertNew (·.address) finder.cache f.address
    rw [← idxByAddr_eq h] at hscan
    rw [Option.bind_some, hscan]
    cases hg : finder.cache.find? fun fi => fi.address = f.address with
    | none => simpa using List.find?_eq_none.1 hg f hf
    | some g =>
      have hgf : g.address = f.address := by simpa using List.find?_some hg
      exact ⟨by simpa [hgf] using hle, fun fi hfi hfile => hgf ▸ hmax.2 _ (hmem fi hfi hfile),
        by rw [hgf]; exact hg⟩

/-- In a program that is laid out apart, the functions at an address are those that start with the
last one before it, if that is there. -/
theorem Floor.covers_iff {l : List FuncInfo} {addr : Addr} {g : FuncInfo} (hg : Floor l addr g)
    (hl : LaidOut l) {f : FuncInfo} (hf : f ∈ l) :
    f.Covers addr ↔ f.address = g.address ∧ g.Covers addr := by
  have hmem := List.mem_of_find?_eq_some hg.first
  constructor
  · intro hc
    have hle : f.address ≤ addr := by
      obtain rfl | hc := hc
      · exact BitVec.le_refl _
      · exact hc.1
    have hsame : f.address = g.address := by
      have hmax := hg.max f hf hle
      have hgle := hg.le
      by_contra hne
      obtain rfl | hc := hc
      · exact hne (BitVec.le_antisymm hmax hgle)
      · exact hl.apart f hf g hmem hne ⟨hmax, by bv_omega⟩
    refine ⟨hsame, ?_⟩
    rwa [FuncInfo.Covers, ← hsame, ← hl.sizes f hf g hmem hsame]
  · rintro ⟨hsame, hc⟩
    rwa [FuncInfo.Covers, hsame, hl.sizes f hf g hmem hsame]

variable (finder) in
/-- The function that `lookup_by_addr` takes the name of. -/
def funcAt (addr : Addr) : Option FuncInfo :=
  ((beforeUpperBound finder.idxByAddr addr).bind (finder.cache[·]?)).bind fun fi =>
    if fi.address = addr then some fi
    else if fi.size > 0 ∧ addr < fi.address + fi.size then some fi else none

theorem lookupByAddr_eq_map (addr : Addr) :
    finder.lookupByAddr addr = (finder.funcAt addr).map FuncInfo.name := by
  rw [funcAt, Option.map_bind, Option.bind_assoc]
  refine congrArg _ (funext fun i => congrArg _ (funext fun fi => ?_))
  simp only [Function.comp_apply]
  split_ifs <;> rfl

/-- That is the first function in a scan that the address is in. -/
theorem funcAt_eq (h : ∀ fi ∈ finder.cache, fi.Collected) (hl : LaidOut finder.cache)
    (addr : Addr) : finder.funcAt addr = finder.cache.find? fun fi => fi.Covers addr := by
  have hfloor := bind_beforeUpperBound (fun fi hfi => (h fi hfi).address_ne) addr
  rw [funcAt]
  cases hg : (beforeUpperBound finder.idxByAddr addr).bind (finder.cache[·]?) with
  | none =>
    rw [hg] at hfloor
    symm
    rw [Option.bind_none, List.find?_eq_none]
    intro fi hfi hc
    obtain rfl | hc := of_decide_eq_true hc
    · exact hfloor fi hfi (BitVec.le_refl _)
    · exact hfloor fi hfi hc.1
  | some g =>
    rw [hg] at hfloor
    have hfits := (h g (List.mem_of_find?_eq_some hfloor.first)).fits
    have hle := hfloor.le
    have hcovers : g.Covers addr ↔
        g.address = addr ∨ g.size > 0 ∧ addr < g.address + g.size := by
      rw [FuncInfo.Covers]
      refine or_congr_right ?_
      bv_omega
    have hscan : (finder.cache.find? fun fi => fi.Covers addr) =
        if g.Covers addr then some g else none := by
      split_ifs with hc
      · rw [← hfloor.first]
        refine List.find?_congr fun f hf => decide_eq_decide.2 ?_
        rw [hfloor.covers_iff hl hf]
        exact and_iff_left hc
      · rw [List.find?_eq_none]
        intro f hf hf'
        exact hc ((hfloor.covers_iff hl hf).1 (of_decide_eq_true hf')).2
    rw [hscan, Option.bind_some]
    by_cases haddr : g.address = addr
    · rw [if_pos haddr, if_pos (.inl haddr)]
    · rw [if_neg haddr]
      by_cases hin : g.size > 0 ∧ addr < g.address + g.size
      · rw [if_pos hin, if_pos (hcovers.2 (.inr hin))]
      · rw [if_neg hin, if_neg fun hc => (hcovers.1 hc).elim haddr hin]

/-- **`lookup_by_addr` is a scan** for the first function that an address is in. -/
theorem lookupByAddr_eq (h : ∀ fi ∈ finder.cache, fi.Collected) (hl : LaidOut finder.cache)
    (addr : Addr) : finder.lookupByAddr addr =
      (finder.cache.find? fun fi => fi.Covers addr).map FuncInfo.name := by
  rw [lookupByAddr_eq_map, funcAt_eq h hl]

end SymbolFinder

open SymbolFinder in
/-- **The lookups of collected functions** are scans: `find` always, and `lookup_by_addr` if the
functions are laid out apart. -/
theorem lookups_scan {finder : SymbolFinder} (h : ∀ fi ∈ finder.cache, fi.Collected) :
    (∀ name, finder.find name = finder.cache.find? fun fi => fi.name = name) ∧
    (LaidOut finder.cache → ∀ addr, finder.lookupByAddr addr =
      (finder.cache.find? fun fi => fi.Covers addr).map FuncInfo.name) :=
  ⟨find_eq, lookupByAddr_eq h⟩

/-- A function with an alias, followed by one of unknown size. -/
def SymbolFinder.aliases : SymbolFinder where
  cache :=
    [⟨"f".toList, "f".toList, 0x1000, 0x10, [], "int".toList, false⟩,
      ⟨"g".toList, "g".toList, 0x1000, 0x10, [], "int".toList, false⟩,
      ⟨"h".toList, "h".toList, 0x1010, 0, [], "int".toList, false⟩]

theorem lookups_scan_aliases :
    SymbolFinder.aliases.find "g".toList = SymbolFinder.aliases.cache[1]? ∧
      SymbolFinder.aliases.lookupByAddr 0x100F = some "f".toList ∧
      SymbolFinder.aliases.lookupByAddr 0x1011 = none := by
  have hcollected : ∀ fi ∈ SymbolFinder.aliases.cache, fi.Collected := by
    intro fi hfi
    exact ⟨by revert fi; decide, by revert fi; decide⟩
  have hlaid : LaidOut SymbolFinder.aliases.cache := ⟨by decide, by decide⟩
  obtain ⟨hfind, hlookup⟩ := @lookups_scan SymbolFinder.aliases hcollected
  rw [hfind, hlookup hlaid, hlookup hlaid]
  decide

end Uatu
