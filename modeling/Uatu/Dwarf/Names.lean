import Uatu.Dwarf.Die
import Mathlib.Data.List.Count
import Mathlib.Data.List.Infix
import Mathlib.Data.List.TakeWhile

/-!
# The names of functions

`strip_params` cuts the demangled name of a function at its first parenthesis. A demangled name is
a qualified name, a parenthesised list of parameters and a suffix (`FunctionName`), and the first
parenthesis opens the list only if the qualified name has none of its own: `namesKept_iff` says
what that means for the functions of a program.
-/

namespace Brackets

variable {α : Type} [DecidableEq α] (o c : α)

/-- The brackets that are open at the end of a word. -/
def depth (w : List α) : ℤ := w.count o - w.count c

/-- Every closing letter has its opening one before it, and none is left open. -/
structure Balanced (w : List α) : Prop where
  nonneg : ∀ p ∈ w.inits, 0 ≤ depth o c p
  depth_eq : depth o c w = 0

end Brackets

namespace Uatu

open Brackets

/-- The demangled name of a C++ function. -/
structure FunctionName where
  qualified : Text
  params : Text
  /-- The qualifiers of the object of a method. -/
  suffix : Text
  qualified_ne : qualified ≠ []
  qualified_balanced : Balanced '(' ')' qualified
  params_balanced : Balanced '(' ')' params
  suffix_plain : ')' ∉ suffix

def FunctionName.text (D : FunctionName) : Text :=
  D.qualified ++ '(' :: (D.params ++ ')' :: D.suffix)

/-! ## What `strip_params` leaves -/

section StripParams

variable {q r : Text}

/-- It is the qualified name up to its first parenthesis. -/
theorem stripParams_append : stripParams (q ++ '(' :: r) = stripParams q := by
  unfold stripParams
  induction q with
  | nil => rfl
  | cons a q ih =>
    rw [List.cons_append, List.takeWhile_cons, List.takeWhile_cons, ih]

theorem stripParams_eq_self_iff : stripParams q = q ↔ '(' ∉ q := by
  rw [stripParams, List.takeWhile_eq_self_iff]
  simp only [decide_eq_true_eq]
  exact ⟨fun h hq => h _ hq rfl, fun h a ha heq => h (heq ▸ ha)⟩

theorem stripParams_eq_nil_iff : stripParams q = [] ↔ ∀ a ∈ q.head?, a = '(' := by
  cases q with
  | nil => simp [stripParams]
  | cons a q =>
    rw [stripParams, List.takeWhile_cons]
    by_cases ha : a = '(' <;> simp [ha]

end StripParams

/-! ## The functions of a program -/

/-- A concrete function with a linkage name. -/
structure LinkedFunction (cxaDemangle : CxaDemangle) where
  die : Die
  address : Addr
  address_ne : address ≠ 0
  lowpc : die.lowpc = some address
  linkage : die.mangled ≠ []
  name : FunctionName
  demangled : cxaDemangle die.mangled = some name.text

namespace LinkedFunction

variable {cxaDemangle : CxaDemangle} {f g : LinkedFunction cxaDemangle}

theorem names_eq (f : LinkedFunction cxaDemangle) :
    f.die.names cxaDemangle = some (f.die.mangled, stripParams f.name.qualified) := by
  rw [Die.names, if_pos f.linkage, demangle, if_neg f.linkage, f.demangled]
  exact congrArg (fun n => some (f.die.mangled, n)) stripParams_append

/-- What is collected of the function, if it is. -/
theorem processSubprogram_eq (f : LinkedFunction cxaDemangle) :
    processSubprogram cxaDemangle f.die =
      if stripParams f.name.qualified = [] then none
      else some (f.die.info f.address (f.die.mangled, stripParams f.name.qualified)) := by
  split_ifs with hempty
  · by_contra hsome
    obtain ⟨fi, hfi⟩ := Option.ne_none_iff_exists'.1 hsome
    obtain ⟨lo, names, -, -, hnames, hne, -⟩ := processSubprogram_eq_some hfi
    rw [f.names_eq] at hnames
    cases hnames
    exact hne hempty
  · exact processSubprogram_of_names f.lowpc f.address_ne f.names_eq hempty

end LinkedFunction

/-- The functions get their qualified names: none is dropped, and no two that differ in them get
the same. -/
structure NamesKept {cxaDemangle : CxaDemangle} (fns : List (LinkedFunction cxaDemangle)) :
    Prop where
  exact : ∀ f ∈ fns, stripParams f.name.text = f.name.qualified
  kept : ∀ f ∈ fns, processSubprogram cxaDemangle f.die ≠ none
  apart : ∀ f ∈ fns, ∀ g ∈ fns, f.name.qualified ≠ g.name.qualified →
    ∀ fi ∈ processSubprogram cxaDemangle f.die, ∀ gi ∈ processSubprogram cxaDemangle g.die,
      fi.name ≠ gi.name

/-- **The names of a program are kept** if no qualified name has a parenthesis. A function whose
qualified name starts with one is dropped, and two whose qualified names agree up to the first one
get the same name. -/
theorem namesKept_iff {cxaDemangle : CxaDemangle} (fns : List (LinkedFunction cxaDemangle)) :
    (NamesKept fns ↔ ∀ f ∈ fns, '(' ∉ f.name.qualified) ∧
    (∀ f ∈ fns, processSubprogram cxaDemangle f.die = none ↔
      f.name.qualified.head? = some '(') ∧
    ∀ f ∈ fns, ∀ g ∈ fns, ∀ fi ∈ processSubprogram cxaDemangle f.die,
      ∀ gi ∈ processSubprogram cxaDemangle g.die,
      (fi.name = gi.name ↔ f.name.qualified.takeWhile (· ≠ '(') =
        g.name.qualified.takeWhile (· ≠ '(')) := by
  have hname : ∀ (f : LinkedFunction cxaDemangle), ∀ fi ∈ processSubprogram cxaDemangle f.die,
      fi.name = stripParams f.name.qualified := by
    intro f fi hfi
    rw [f.processSubprogram_eq] at hfi
    split_ifs at hfi with hempty
    · cases hfi
    · cases hfi
      rfl
  have hnone : ∀ f : LinkedFunction cxaDemangle,
      processSubprogram cxaDemangle f.die = none ↔ stripParams f.name.qualified = [] := by
    intro f
    rw [f.processSubprogram_eq]
    split_ifs with hempty
    · exact iff_of_true rfl hempty
    · exact iff_of_false (by simp) hempty
  refine ⟨⟨fun h f hf => ?_, fun h => ?_⟩, fun f hf => ?_, fun f _ g _ fi hfi gi hgi => ?_⟩
  · rw [← stripParams_eq_self_iff, ← stripParams_append]
    exact h.exact f hf
  · have hstrip : ∀ f ∈ fns, stripParams f.name.qualified = f.name.qualified :=
      fun f hf => stripParams_eq_self_iff.2 (h f hf)
    constructor
    · exact fun f hf => stripParams_append.trans (hstrip f hf)
    · intro f hf
      rw [ne_eq, hnone, hstrip f hf]
      exact f.name.qualified_ne
    · intro f hf g hg hne fi hfi gi hgi
      rw [hname f fi hfi, hname g gi hgi, hstrip f hf, hstrip g hg]
      exact hne
  · rw [hnone, stripParams_eq_nil_iff]
    cases hq : f.name.qualified with
    | nil => exact absurd hq f.name.qualified_ne
    | cons a q => simp
  · rw [hname f fi hfi, hname g gi hgi]
    rfl

/-! ### Functions of an unnamed namespace -/

/-- What three linkage names stand for. -/
def CxaDemangle.unnamed : CxaDemangle := fun mangled =>
  if mangled = "_ZN12_GLOBAL__N_11fEi".toList then
    some "(anonymous namespace)::f(int)".toList
  else if mangled = "_ZN2ns12_GLOBAL__N_11fEi".toList then
    some "ns::(anonymous namespace)::f(int)".toList
  else if mangled = "_ZN2ns12_GLOBAL__N_11gEv".toList then
    some "ns::(anonymous namespace)::g()".toList
  else none

/-- The entry of a function at this address. -/
def Die.function (lo : Addr) (linkageName : String) : Die where
  tag := .subprogram
  lowpc := some lo
  attrs := { linkageName := some linkageName.toList }

namespace LinkedFunction

def unnamedF : LinkedFunction .unnamed where
  die := .function 0x1100 "_ZN12_GLOBAL__N_11fEi"
  address := 0x1100
  address_ne := by decide
  lowpc := rfl
  linkage := by decide
  name := ⟨"(anonymous namespace)::f".toList, "int".toList, [], by decide,
    ⟨by decide, by decide⟩, ⟨by decide, by decide⟩, by decide⟩
  demangled := by decide

def nestedF : LinkedFunction .unnamed where
  die := .function 0x1120 "_ZN2ns12_GLOBAL__N_11fEi"
  address := 0x1120
  address_ne := by decide
  lowpc := rfl
  linkage := by decide
  name := ⟨"ns::(anonymous namespace)::f".toList, "int".toList, [], by decide,
    ⟨by decide, by decide⟩, ⟨by decide, by decide⟩, by decide⟩
  demangled := by decide

def nestedG : LinkedFunction .unnamed where
  die := .function 0x1140 "_ZN2ns12_GLOBAL__N_11gEv"
  address := 0x1140
  address_ne := by decide
  lowpc := rfl
  linkage := by decide
  name := ⟨"ns::(anonymous namespace)::g".toList, [], [], by decide,
    ⟨by decide, by decide⟩, ⟨by decide, by decide⟩, by decide⟩
  demangled := by decide

end LinkedFunction

open LinkedFunction in
/-- One function is dropped, and the other two get one name. -/
theorem not_namesKept_unnamed :
    processSubprogram .unnamed unnamedF.die = none ∧
    (processSubprogram .unnamed nestedF.die).map FuncInfo.name = some "ns::".toList ∧
    (processSubprogram .unnamed nestedG.die).map FuncInfo.name = some "ns::".toList ∧
    ¬ NamesKept [unnamedF] ∧ ¬ NamesKept [nestedF, nestedG] := by
  have hdropped : processSubprogram .unnamed unnamedF.die = none := by
    rw [unnamedF.processSubprogram_eq]
    decide
  refine ⟨hdropped, ?_, ?_, fun h => ?_, fun h => ?_⟩
  · rw [nestedF.processSubprogram_eq]
    decide
  · rw [nestedG.processSubprogram_eq]
    decide
  · exact h.kept unnamedF (List.mem_singleton_self _) hdropped
  · exact absurd (h.exact nestedF (List.mem_cons_self ..)) (by decide)

end Uatu
