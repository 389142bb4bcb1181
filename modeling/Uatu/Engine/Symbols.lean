import Uatu.Dwarf.Lookup
import Uatu.Engine.CallConv

/-!
# What `sym_for` names

`sym_for` of `stack()` takes the slide off a runtime address, but leaves an address below the slide
as it is, and looks the result up. In a program whose functions lie apart, `symbolizes_iff` says
for which values that is the function whose runtime range the value is in, and `callSite_shown_iff`
for which calls the frame of the return address is that of the caller.
-/

namespace Uatu

open ByteMemory Throwing

/-! ## Functions that lie apart -/

/-- The first address after a function. -/
def FuncInfo.endAddr (fi : FuncInfo) : ℕ := fi.address.toNat + fi.size.toNat

/-- One of the two functions ends before the other starts. -/
def FuncInfo.Apart (f g : FuncInfo) : Prop :=
  f.endAddr ≤ g.address.toNat ∨ g.endAddr ≤ f.address.toNat

instance (f g : FuncInfo) : Decidable (f.Apart g) := inferInstanceAs (Decidable (_ ∨ _))

instance : Std.Symm FuncInfo.Apart := ⟨fun _ _ => Or.symm⟩

/-- The ranges are not empty and lie apart. -/
structure DisjointRanges (l : List FuncInfo) : Prop where
  nonempty : ∀ f ∈ l, 0 < f.size.toNat
  apart : l.Pairwise FuncInfo.Apart

namespace DisjointRanges

variable {l : List FuncInfo} {f g : FuncInfo} {addr : Addr}

theorem eq_or_apart (h : DisjointRanges l) (hf : f ∈ l) (hg : g ∈ l) :
    f = g ∨ f.endAddr ≤ g.address.toNat ∨ g.endAddr ≤ f.address.toNat := by
  by_cases heq : f = g
  · exact .inl heq
  · exact .inr (h.apart.forall hf hg heq)

theorem covers_iff (h : DisjointRanges l) (hf : f ∈ l) :
    f.Covers addr ↔ f.address.toNat ≤ addr.toNat ∧ addr.toNat < f.endAddr := by
  have hpos := h.nonempty f hf
  rw [FuncInfo.Covers, FuncInfo.endAddr, BitVec.le_def]
  constructor
  · rintro (rfl | hin)
    · omega
    · exact hin
  · exact Or.inr

/-- No address is in two functions. -/
theorem eq_of_covers (h : DisjointRanges l) (hf : f ∈ l) (hg : g ∈ l) (hfa : f.Covers addr)
    (hga : g.Covers addr) : f = g := by
  rw [h.covers_iff hf] at hfa
  rw [h.covers_iff hg] at hga
  rcases h.eq_or_apart hf hg with heq | hfg | hgf
  · exact heq
  · omega
  · omega

theorem laidOut (h : DisjointRanges l) : LaidOut l where
  apart := by
    rintro f hf g hg hne ⟨hle, hlt⟩
    have hpos := h.nonempty g hg
    rw [BitVec.le_def] at hle
    rcases h.eq_or_apart hf hg with rfl | hfg | hgf
    · exact hne rfl
    · rw [FuncInfo.endAddr] at hfg
      omega
    · rw [FuncInfo.endAddr] at hgf
      omega
  sizes := by
    intro f hf g hg hsame
    have hposf := h.nonempty f hf
    have hposg := h.nonempty g hg
    rcases h.eq_or_apart hf hg with rfl | hfg | hgf
    · rfl
    · rw [FuncInfo.endAddr, hsame] at hfg
      omega
    · rw [FuncInfo.endAddr, hsame] at hgf
      omega

end DisjointRanges

section FuncAt

variable {finder : SymbolFinder} {g : FuncInfo} {addr : Addr}

theorem SymbolFinder.funcAt_eq_some_iff (hc : ∀ fi ∈ finder.cache, fi.Collected)
    (hd : DisjointRanges finder.cache) :
    finder.funcAt addr = some g ↔ g ∈ finder.cache ∧ g.Covers addr := by
  rw [funcAt_eq hc hd.laidOut]
  constructor
  · intro h
    exact ⟨List.mem_of_find?_eq_some h, by simpa using List.find?_some h⟩
  · rintro ⟨hg, hcovers⟩
    cases hfind : finder.cache.find? fun fi => fi.Covers addr with
    | none => exact absurd hcovers (by simpa using List.find?_eq_none.1 hfind g hg)
    | some f =>
      have hf : f.Covers addr := by simpa using List.find?_some hfind
      rw [hd.eq_of_covers (List.mem_of_find?_eq_some hfind) hg hf hcovers]

theorem SymbolFinder.funcAt_eq_none_iff (hc : ∀ fi ∈ finder.cache, fi.Collected)
    (hd : DisjointRanges finder.cache) :
    finder.funcAt addr = none ↔ ∀ g ∈ finder.cache, ¬ g.Covers addr := by
  rw [funcAt_eq hc hd.laidOut, List.find?_eq_none]
  simp only [decide_eq_true_eq]

end FuncAt

/-! ## The values that `sym_for` is right about -/

/-- The value is in the range of the function in the running program. -/
def FuncInfo.InRuntimeRange (slide x : Addr) (fi : FuncInfo) : Prop :=
  fi.address.toNat + slide.toNat ≤ x.toNat ∧
    x.toNat < fi.address.toNat + slide.toNat + fi.size.toNat

instance (slide x : Addr) (fi : FuncInfo) : Decidable (fi.InRuntimeRange slide x) :=
  inferInstanceAs (Decidable (_ ∧ _))

namespace Stack

variable {c : Target} {g : FuncInfo} {x : Addr}

/-- The address that `sym_for` looks up. -/
def linkAddr (c : Target) (x : Addr) : Addr := if x ≥ c.aslrSlide then x - c.aslrSlide else x

/-- What it shows for an address in no function. -/
def hexAddr (x : Addr) : Text := "0x".toList ++ (hex x).leftpad 16 '0'

/-- `sym_for` takes the name of this function. -/
def Names (c : Target) (x : Addr) (g : FuncInfo) : Prop := c.finder.funcAt (linkAddr c x) = some g

theorem symFor_eq :
    symFor c x = ((c.finder.funcAt (linkAddr c x)).map FuncInfo.name).getD (hexAddr x) := by
  rw [symFor, SymbolFinder.lookupByAddr_eq_map, linkAddr]
  generalize c.finder.funcAt _ = found
  cases found <;> rfl

theorem symFor_of_names (h : Names c x g) : symFor c x = g.name := by
  rw [symFor_eq, h]
  rfl

theorem symFor_of_none (h : c.finder.funcAt (linkAddr c x) = none) : symFor c x = hexAddr x := by
  rw [symFor_eq, h]
  rfl

/-- `sym_for` names the function whose runtime range the value is in, and no other. -/
structure Symbolizes (c : Target) (x : Addr) : Prop where
  names_iff : ∀ g ∈ c.finder.cache, Names c x g ↔ g.InRuntimeRange c.aslrSlide x
  shown : ∀ g, Names c x g → symFor c x = g.name
  hex : (∀ g ∈ c.finder.cache, ¬ g.InRuntimeRange c.aslrSlide x) → symFor c x = hexAddr x

/-- Taking the slide off, from the slide on. -/
theorem covers_sub_slide (hd : DisjointRanges c.finder.cache) (hg : g ∈ c.finder.cache)
    (hx : c.aslrSlide ≤ x) : g.Covers (x - c.aslrSlide) ↔ g.InRuntimeRange c.aslrSlide x := by
  have hsub : (x - c.aslrSlide).toNat = x.toNat - c.aslrSlide.toNat :=
    BitVec.toNat_sub_of_le hx
  rw [hd.covers_iff hg, FuncInfo.InRuntimeRange, FuncInfo.endAddr, hsub]
  rw [BitVec.le_def] at hx
  omega

/-- **What `sym_for` names.** It is right about a value that is not below the slide, and about one
below it that is not in the link-time range of a function. -/
theorem symbolizes_iff (hc : ∀ g ∈ c.finder.cache, g.Collected)
    (hd : DisjointRanges c.finder.cache) (x : Addr) :
    Symbolizes c x ↔ c.aslrSlide ≤ x ∨ ∀ g ∈ c.finder.cache, ¬ g.Covers x := by
  have hnames : ∀ g ∈ c.finder.cache, Names c x g ↔ g.Covers (linkAddr c x) := fun g hg => by
    rw [Names, SymbolFinder.funcAt_eq_some_iff hc hd]
    exact and_iff_right hg
  by_cases hx : c.aslrSlide ≤ x
  · have hlink : linkAddr c x = x - c.aslrSlide := if_pos hx
    refine iff_of_true ⟨fun g hg => ?_, fun g => symFor_of_names, fun hnone => ?_⟩ (.inl hx)
    · rw [hnames g hg, hlink, covers_sub_slide hd hg hx]
    · apply symFor_of_none
      rw [SymbolFinder.funcAt_eq_none_iff hc hd, hlink]
      exact fun g hg hcovers => hnone g hg ((covers_sub_slide hd hg hx).1 hcovers)
  · have hlink : linkAddr c x = x := if_neg hx
    have hout : ∀ g ∈ c.finder.cache, ¬ g.InRuntimeRange c.aslrSlide x := by
      rintro g - ⟨hle, -⟩
      rw [BitVec.le_def] at hx
      omega
    rw [or_iff_right hx]
    constructor
    · intro h g hg hcovers
      exact hout g hg ((h.names_iff g hg).1 ((hnames g hg).2 (by rwa [hlink])))
    · intro hnone
      refine ⟨fun g hg => ?_, fun g => symFor_of_names, fun _ => ?_⟩
      · rw [hnames g hg, hlink]
        exact iff_of_false (hnone g hg) (hout g hg)
      · apply symFor_of_none
        rwa [SymbolFinder.funcAt_eq_none_iff hc hd, hlink]

end Stack

/-- A position-independent executable with one function, loaded where the kernel puts it. -/
def Target.pie : Target where
  funcName := "main".toList
  count := 1
  finder := ⟨[⟨"main".toList, "main".toList, 0x1100, 0x50, [], [], false⟩]⟩
  aslrSlide := 0x555555554000
  entryVaddr := 0x555555555100

theorem Target.collected_pie : ∀ g ∈ Target.pie.finder.cache, g.Collected := by
  intro g hg
  rw [List.mem_singleton.1 hg]
  exact ⟨by decide, by decide⟩

theorem Target.disjointRanges_pie : DisjointRanges Target.pie.finder.cache :=
  ⟨by decide, by decide⟩

theorem Stack.symbolizes_pie :
    Stack.Symbolizes Target.pie 0x555555555139 ∧ Stack.Symbolizes Target.pie 0x7FFFFFFFE0D0 ∧
      Stack.Symbolizes Target.pie 0x10 := by
  have h := Stack.symbolizes_iff Target.collected_pie Target.disjointRanges_pie
  refine ⟨(h _).2 (.inl (by decide)), (h _).2 (.inl (by decide)), (h _).2 (.inr ?_)⟩
  decide

/-- A small integer where a return address should be. -/
theorem Stack.not_symbolizes_pie :
    (∀ g ∈ Target.pie.finder.cache,
      g.address.toNat + Target.pie.aslrSlide.toNat + g.size.toNat ≤ 2 ^ 64) ∧
    DisjointRanges Target.pie.finder.cache ∧
    (∀ g ∈ Target.pie.finder.cache, ¬ g.InRuntimeRange Target.pie.aslrSlide 0x1139) ∧
    Stack.symFor Target.pie 0x1139 = "main".toList ∧ ¬ Stack.Symbolizes Target.pie 0x1139 := by
  have hout : ∀ g ∈ Target.pie.finder.cache,
      ¬ g.InRuntimeRange Target.pie.aslrSlide 0x1139 := by
    intro g hg
    rw [List.mem_singleton.1 hg]
    decide
  have hmain : Stack.symFor Target.pie 0x1139 = "main".toList := by decide
  refine ⟨by decide, Target.disjointRanges_pie, hout, hmain, fun h => ?_⟩
  have hhex := h.hex hout
  rw [hmain] at hhex
  exact absurd hhex (by decide)

/-! ## The frame of a return address -/

/-- A call instruction that lies in a function, at its link-time address. -/
structure CallSite (g : FuncInfo) where
  addr : Addr
  length : ℕ
  length_pos : 0 < length
  starts : g.address.toNat ≤ addr.toNat
  ends : addr.toNat + length ≤ g.endAddr

/-- The link-time address of the next instruction. -/
def CallSite.returnAddr {g : FuncInfo} (call : CallSite g) : Addr :=
  call.addr + BitVec.ofNat 64 call.length

theorem CallSite.toNat_returnAddr {g : FuncInfo} (call : CallSite g) (hg : g.Collected) :
    call.returnAddr.toNat = call.addr.toNat + call.length := by
  have hfits := hg.fits
  have hends := call.ends
  rw [FuncInfo.endAddr] at hends
  rw [returnAddr, BitVec.toNat_add, BitVec.toNat_ofNat]
  omega

namespace Stack

variable {c : Target} {g : FuncInfo} {ret : Addr} {text : Text}

/-- `stack()` shows this text for a return address, at the top of the stack and in any frame that
the walk comes to. -/
structure Shows (c : Target) (ret : Addr) (text : Text) : Prop where
  caller : ∀ {R : Type} {A : Arch R} {regs : R} {s t : Session R StackVars StackEvent}
    {fs : List Text}, frames A c regs s = .ok fs t → s.answers (.peek (A.getSp regs)) →
    readWord s.tracee.mem (A.getSp regs) = ret → fs[1]? = some text
  walked : ∀ {R : Type} {s : Session R StackVars StackEvent} {m : Mem} {x : Visit},
    s.answersAt (x.request + 1) (.peek x.savedRet) → readWord m x.savedRet = ret → ret ≠ 0 →
    x.frame c s m = some text

/-- That is what `sym_for` makes of it. -/
theorem shows_iff : Shows c ret text ↔ symFor c ret = text := by
  constructor
  · intro h
    let regs : X86Regs := .single
    let m : Mem := writeWord (fun _ => 0) (x86_64.getSp regs) ret
    let s : Session X86Regs StackVars StackEvent := .stoppedAt m regs default
    have hsp : readWord s.tracee.mem (x86_64.getSp regs) = ret := readWord_writeWord (by decide) ..
    have hans : s.answers (.peek (x86_64.getSp regs)) := rfl
    have hpost : Post (frames x86_64 c regs) s _ fun _ _ => False := post_frames_visits
    obtain ⟨fs, t, hok, hfs⟩ := hpost.exists_ok
    have hshown := h.caller hok hans hsp
    rw [hfs, if_pos hans, hsp] at hshown
    exact Option.some.inj hshown
  · rintro rfl
    constructor
    · rintro R A regs s t fs hok hans rfl
      have hfs := (post_frames_visits (E := fun _ _ => False)).ok hok
      rw [hfs, if_pos hans]
      rfl
    · rintro R s m x hans rfl hne
      exact if_pos ⟨hans, hne⟩

/-- What is looked up at `addr` for the value `x` is shown as this name. -/
def NamedAt (c : Target) (addr x : Addr) (name : Text) : Prop :=
  (∃ f ∈ c.finder.cache, f.Covers addr ∧ f.name = name) ∨
    (∀ f ∈ c.finder.cache, ¬ f.Covers addr) ∧ hexAddr x = name

theorem symFor_eq_iff (hc : ∀ g ∈ c.finder.cache, g.Collected)
    (hd : DisjointRanges c.finder.cache) :
    symFor c ret = text ↔ NamedAt c (linkAddr c ret) ret text := by
  rw [symFor_eq, NamedAt]
  cases hfound : c.finder.funcAt (linkAddr c ret) with
  | none =>
    have hnone := (SymbolFinder.funcAt_eq_none_iff hc hd).1 hfound
    constructor
    · exact fun h => .inr ⟨hnone, h⟩
    · rintro (⟨f, hf, hcovers, -⟩ | ⟨-, h⟩)
      · exact absurd hcovers (hnone f hf)
      · exact h
  | some f =>
    obtain ⟨hf, hcovers⟩ := (SymbolFinder.funcAt_eq_some_iff hc hd).1 hfound
    constructor
    · exact fun h => .inl ⟨f, hf, hcovers, h⟩
    · rintro (⟨f', hf', hcovers', h⟩ | ⟨hnone, -⟩)
      · rw [hd.eq_of_covers hf' hf hcovers' hcovers] at h
        exact h
      · exact absurd hcovers (hnone f hf)

/-- **The frame of a call** is that of the function it is made in, if the slid return address does
not wrap around and is not past the end of the function. Past the end, the function that starts
there is shown, and after a wrap the one that has the slid address for its link-time address: only
if that has the same name, the frame is right. -/
theorem callSite_shown_iff (hc : ∀ g ∈ c.finder.cache, g.Collected)
    (hd : DisjointRanges c.finder.cache) (hg : g ∈ c.finder.cache) (call : CallSite g) :
    Shows c (call.returnAddr + c.aslrSlide) g.name ↔
      if c.aslrSlide ≤ call.returnAddr + c.aslrSlide then
        call.returnAddr.toNat ≠ g.endAddr ∨
          NamedAt c call.returnAddr (call.returnAddr + c.aslrSlide) g.name
      else
        NamedAt c (call.returnAddr + c.aslrSlide) (call.returnAddr + c.aslrSlide) g.name := by
  rw [shows_iff, symFor_eq_iff hc hd]
  split_ifs with hle
  · have hlink : linkAddr c (call.returnAddr + c.aslrSlide) = call.returnAddr := by
      rw [linkAddr, if_pos hle, BitVec.add_sub_cancel]
    rw [hlink, or_iff_right_of_imp]
    intro hne
    refine .inl ⟨g, hg, ?_, rfl⟩
    have hret := call.toNat_returnAddr (hc g hg)
    have hstarts := call.starts
    have hends := call.ends
    rw [hd.covers_iff hg]
    omega
  · rw [linkAddr, if_neg hle]

end Stack

/-- A function that ends with a call that does not return. -/
def FuncInfo.fails : FuncInfo := ⟨"fails".toList, "fails".toList, 0x1100, 0x20, [], [], false⟩

/-- The function is followed by another. -/
def Target.adjacent : Target where
  funcName := "abort".toList
  count := 1
  finder := ⟨[.fails, ⟨"next".toList, "next".toList, 0x1120, 0x10, [], [], false⟩]⟩
  aslrSlide := 0x555555554000
  entryVaddr := 0x555555556000

/-- A call in the middle of the function. -/
def CallSite.inner : CallSite .fails := ⟨0x1110, 5, by decide, by decide, by decide⟩

/-- The call at its end. -/
def CallSite.last : CallSite .fails := ⟨0x111B, 5, by decide, by decide, by decide⟩

theorem Target.collected_adjacent : ∀ g ∈ Target.adjacent.finder.cache, g.Collected := by
  intro g hg
  exact ⟨by revert g; decide, by revert g; decide⟩

theorem Target.disjointRanges_adjacent : DisjointRanges Target.adjacent.finder.cache :=
  ⟨by decide, by decide⟩

theorem Stack.callSite_shown_inner :
    Stack.Shows Target.adjacent 0x555555555115 "fails".toList ∧
      ¬ Stack.Shows Target.adjacent 0x555555555120 "fails".toList := by
  have hiff := fun call : CallSite .fails => Stack.callSite_shown_iff Target.collected_adjacent
    Target.disjointRanges_adjacent (List.mem_cons_self ..) call
  refine ⟨(hiff .inner).2 ?_, fun h => ?_⟩
  · rw [if_pos (by decide)]
    exact .inl (by decide)
  have hlast := (hiff .last).1 h
  rw [if_pos (by decide)] at hlast
  rcases hlast with hne | ⟨f, hf, hcovers, hname⟩ | ⟨hnone, -⟩
  · exact hne (by decide)
  · revert f
    decide
  · revert hnone
    decide

/-- The call at the end of the function is shown as one of the next. -/
theorem Stack.not_shown_last :
    Stack.symFor Target.adjacent (CallSite.last.returnAddr + Target.adjacent.aslrSlide) =
      "next".toList ∧
    ¬ Stack.Shows Target.adjacent (CallSite.last.returnAddr + Target.adjacent.aslrSlide)
      FuncInfo.fails.name := by
  have hnext : Stack.symFor Target.adjacent
      (CallSite.last.returnAddr + Target.adjacent.aslrSlide) = "next".toList := by decide
  refine ⟨hnext, fun h => ?_⟩
  have hfails := Stack.shows_iff.1 h
  rw [hnext] at hfails
  exact absurd hfails (by decide)

end Uatu
