import Uatu.Dwarf.Parameters
import Uatu.Engine.Arguments
import Uatu.Engine.TypeKinds

/-!
# Parameters by the ABI

By the System V ABI of x86_64, the parameters of a call that are of scalar type take the registers
of their class in order, after the pointer to a result in memory and the pointers that the compiler
adds. `format_params` counts two kinds of registers and one pointer in front. `shownByAbi_iff` says
for which functions the two come to the same.
-/

namespace Uatu

open Registers

/-! ## The ABI -/

/-- The scalar types: integers have at most 64 bits, with `bool` among them. -/
inductive Scalar
  | integer
  | pointer
  | reference
  | float
  | double
  | longDouble
  deriving DecidableEq

/-- The classes of scalar types. -/
inductive AbiClass
  | integer
  | sse
  | x87
  deriving DecidableEq

def Scalar.abiClass : Scalar → AbiClass
  | .integer => .integer
  | .pointer => .integer
  | .reference => .integer
  | .float => .sse
  | .double => .sse
  | .longDouble => .x87

/-- Where a parameter is at the entry of a function. -/
inductive Location
  | register (r : Fin 6)
  | xmm (k : ℕ)
  /-- On the stack, since the integer registers are used up. -/
  | overflow
  /-- On the stack, for another reason. -/
  | memory
  deriving DecidableEq

/-- The place that a parameter gets, by its number in its class. -/
def AbiClass.location : AbiClass → ℕ → Location
  | .integer, n => if h : n < 6 then .register ⟨n, h⟩ else .overflow
  | .sse, n => if n < 8 then .xmm n else .memory
  | .x87, _ => .memory

/-! ## Signatures -/

/-- The entry of a type is that of a scalar type. An integer type may have any other name. -/
def TypeDie.IsScalar (t : TypeDie) : Scalar → Prop
  | .integer => ∃ name, t.core = .named (some name) ∧
      name ∉ ["float".toList, "double".toList, "long double".toList]
  | .pointer => t.IsPointer
  | .reference => t.IsReference
  | .float => t.core = .named (some "float".toList)
  | .double => t.core = .named (some "double".toList)
  | .longDouble => t.core = .named (some "long double".toList)

/-- A scalar type in the source. -/
structure ScalarType extends SourceType where
  scalar : Scalar
  isScalar : die.IsScalar scalar

/-- The parameters of a function, as the ABI sees them. -/
structure Signature where
  /-- How many pointers the compiler adds in front of the parameters. -/
  artificial : ℕ
  /-- The result is returned in memory, which the caller hands over a pointer to. -/
  hiddenReturn : Bool
  params : List ScalarType

namespace Signature

/-- The number of integer registers that are taken before the first parameter. -/
def lead (sig : Signature) : ℕ := sig.artificial + sig.hiddenReturn.toNat

/-- The numbers from which the parameters of a class are numbered. -/
def firstRegister (sig : Signature) : AbiClass → ℕ
  | .integer => sig.lead
  | .sse => 0
  | .x87 => 0

/-- Where the ABI puts the parameters. -/
def locations (sig : Signature) : List Location :=
  List.zipWith (fun t n => t.scalar.abiClass.location n) sig.params
    (numbers (fun t => t.scalar.abiClass) sig.firstRegister sig.params)

/-- The entry is that of a function with this signature. -/
structure Describes (sig : Signature) (die : Die) : Prop where
  /-- The parameters that the compiler adds are in front of the others. -/
  leading : die.children.filter (fun param => param.tag = .formalParameter) =
    die.artificialParams ++ die.sourceParams
  artificial : die.artificialParams.length = sig.artificial
  pointers : ∀ param ∈ die.artificialParams, ∃ type : TypeDie, type.IsPointer ∧
    param.attrIntegrate Attrs.type = some (some type)
  types : die.sourceParams.map (fun param => param.attrIntegrate Attrs.type) =
    sig.params.map fun t => some (some t.die)

end Signature

/-- What is shown for a parameter of this type, by the entry record, comes from where the parameter
is: from its integer register, and from no register if it has none. The marks of `format_params`
stand for the other places. -/
structure Location.Shown (loc : Location) (type : Text) (text : Delivery → Option Text) :
    Prop where
  register : ∀ r, loc = .register r → ∀ d, text d = some (shownArg d.2 (d.1.args r) type)
  elsewhere : (∀ r, loc ≠ .register r) → ∀ d d', text d = text d'
  xmm : ∀ d k, text d = some (xmmText k) ↔ loc = .xmm k
  stack : ∀ d, text d = some "?".toList ↔ loc = .overflow

/-- The parameters of a call of the function are shown from where the ABI puts them. -/
def Signature.ShownByAbi (sig : Signature) (fi : FuncInfo) : Prop :=
  ∀ (raw : RawEvent) (idx i : ℕ) (t : ScalarType) (loc : Location),
    sig.params[i]? = some t → sig.locations[i]? = some loc →
      loc.Shown (resolveTypeName t.die) fun d =>
        (Watch.exitEvent raw idx fi (some (Watch.entryData d idx fi))).params[i]?

/-! ## Where a text comes from -/

section Shown

variable {loc : Location} {type type' : Text} {r : Fin 6}

/-- The value of a register is shown only for what is in it. -/
theorem Location.Shown.eq_register
    (h : loc.Shown type fun d => some (shownArg d.2 (d.1.args r) type')) : loc = .register r := by
  -- the record of an entry with `v` in the register and zeros elsewhere
  let entry (v : Word) : Delivery := (.entry (Function.update (fun _ => 0) r v), .unreadable)
  have hentry : ∀ v, shownArg (entry v).2 ((entry v).1.args r) type' =
      shownArg .unreadable v type' := fun v => by
    simp only [entry, RawEvent.entry, Function.update_self]
  have hconst : ¬ ∀ v v', shownArg (entry v).2 ((entry v).1.args r) type' =
      shownArg (entry v').2 ((entry v').1.args r) type' := by
    intro hconst
    obtain ⟨v, v', hne⟩ := exists_shownArg_ne type'
    exact hne ((hentry v).symm.trans ((hconst v v').trans (hentry v')))
  cases loc with
  | register r' =>
    by_contra hne
    have hr : r ≠ r' := fun hr => hne (congrArg _ hr.symm)
    apply hconst
    intro v v'
    have hv := h.register r' rfl
    have hother : ∀ v, (entry v).1.args r' = 0 := fun v => by
      simp only [entry, RawEvent.entry, Function.update_of_ne hr.symm]
    rw [Option.some.inj (hv (entry v)), Option.some.inj (hv (entry v')), hother, hother]
  | xmm k =>
    exact absurd (Option.some.inj ((h.xmm (entry 0) k).2 rfl)) (shownArg_ne_xmmText k)
  | overflow =>
    exact absurd (Option.some.inj ((h.stack (entry 0)).2 rfl)) shownArg_ne_question
  | memory =>
    exact absurd (fun v v' => Option.some.inj (h.elsewhere nofun (entry v) (entry v'))) hconst

/-- The place whose parameter is shown, by how registers are counted. -/
def countedLocation (fp : Bool) (n : ℕ) : Location :=
  if fp then .xmm n else AbiClass.integer.location n

/-- A mark stands for its place. -/
theorem Location.shown_mark {text : Text} (hloc : ∀ r, loc ≠ .register r)
    (hxmm : ∀ k, text = xmmText k ↔ loc = .xmm k) (hstack : text = "?".toList ↔ loc = .overflow) :
    loc.Shown type fun _ => some text where
  register r hr := absurd hr (hloc r)
  elsewhere _ _ _ := rfl
  xmm _ k := by rw [Option.some.injEq, hxmm]
  stack _ := by rw [Option.some.injEq, hstack]

/-- **What is shown comes from one place**, the one that has been counted. -/
theorem shown_paramText_iff {n : ℕ} :
    (loc.Shown type fun d => some (paramText d.2 d.1.args type n)) ↔
      loc = countedLocation (isFpParam type) n := by
  have hd : Delivery := (.entry fun _ => 0, .unreadable)
  simp only [paramText, countedLocation, AbiClass.location]
  by_cases hfp : isFpParam type
  · simp only [if_pos hfp]
    constructor
    · intro h
      exact (h.xmm hd n).1 rfl
    · rintro rfl
      refine Location.shown_mark (by rintro r ⟨⟩) (fun k => ?_)
        (iff_of_false (xmmText_ne_question n) (by rintro ⟨⟩))
      rw [Location.xmm.injEq]
      exact ⟨xmmText_inj, congrArg _⟩
  · simp only [if_neg hfp]
    by_cases hn : n < 6
    · simp only [dif_pos hn]
      constructor
      · exact Location.Shown.eq_register
      · rintro rfl
        refine ⟨fun r hr d => ?_, fun h => absurd rfl (h _), fun d k => ?_, fun d => ?_⟩
        · rw [← Location.register.inj hr]
        · rw [Option.some.injEq]
          exact iff_of_false (shownArg_ne_xmmText k) (by rintro ⟨⟩)
        · rw [Option.some.injEq]
          exact iff_of_false shownArg_ne_question (by rintro ⟨⟩)
    · simp only [dif_neg hn]
      constructor
      · intro h
        exact (h.stack hd).1 rfl
      · rintro rfl
        exact Location.shown_mark (by rintro r ⟨⟩)
          (fun k => iff_of_false (xmmText_ne_question k).symm (by rintro ⟨⟩)) (iff_of_true rfl rfl)

end Shown

/-! ## What is counted -/

section Counting

variable {t : TypeDie} {tag : TypeTag}

/-- A pointer or a reference is not taken for a floating-point type. -/
theorem isFpParam_of_hasTag (h : t.HasTag tag) : isFpParam (resolveTypeName t) = false := by
  rw [isFpParam, decide_eq_false_iff_not]
  rcases h with ⟨type, hcore⟩ | hcore
  · exact TypeDie.stripCv_derived_notMem hcore (by decide)
  · rw [TypeDie.stripCv_resolveTypeName_ofVoid hcore]
    decide

/-- The types that `is_fp_param` finds are those that are not of the integer class. -/
theorem ScalarType.isFpParam_eq (t : ScalarType) :
    isFpParam (resolveTypeName t.die) = decide (t.scalar.abiClass ≠ .integer) := by
  obtain ⟨⟨die, hwell⟩, scalar, hscalar⟩ := t
  have hnamed : ∀ {name}, die.core = .named (some name) →
      isFpParam (resolveTypeName die) =
        decide (name ∈ ["float".toList, "double".toList, "long double".toList]) := by
    intro name hcore
    rw [isFpParam, TypeDie.stripCv_resolveTypeName_named hwell hcore]
    rfl
  cases scalar with
  | integer =>
    obtain ⟨name, hcore, hname⟩ := hscalar
    exact (hnamed hcore).trans (decide_eq_false hname)
  | pointer => exact isFpParam_of_hasTag hscalar
  | reference => exact hscalar.elim isFpParam_of_hasTag isFpParam_of_hasTag
  | float => exact hnamed hscalar
  | double => exact hnamed hscalar
  | longDouble => exact hnamed hscalar

end Counting

/-- The parameters that the compiler has added say so themselves. -/
def Die.Flagged (die : Die) : Prop :=
  ∀ param ∈ die.artificialParams, param.attr Attrs.artificial = some true

theorem Die.exists_of_not_flagged {die : Die} (h : ¬ die.Flagged) :
    ∃ param ∈ die.artificialParams, param.attr Attrs.artificial ≠ some true := by
  simpa [Die.Flagged] using h

namespace Signature

variable {sig : Signature} {die : Die} {cxaDemangle : CxaDemangle} {fi : FuncInfo}

theorem entry_of_mem_sourceParams {param : Die} {type : TypeDie} (h : param ∈ die.sourceParams)
    (htype : param.attrIntegrate Attrs.type = some (some type)) :
    param.entry = some (resolveTypeName type) := by
  obtain ⟨-, htag, hart⟩ := Die.mem_sourceParams.1 h
  have hown : param.attr Attrs.artificial ≠ some true := fun hown =>
    hart (decide_eq_true (Die.attrIntegrate_of_attr hown))
  rw [Die.entry, if_pos ⟨htag, hown⟩, htype]
  rfl

theorem filterMap_entry_of_types {params : List Die} {types : List ScalarType}
    (hmem : ∀ param ∈ params, param ∈ die.sourceParams)
    (htypes : params.map (fun param => param.attrIntegrate Attrs.type) =
      types.map fun t => some (some t.die)) :
    params.filterMap Die.entry = types.map fun t => resolveTypeName t.die := by
  induction params generalizing types with
  | nil =>
    rw [List.map_nil, eq_comm, List.map_eq_nil_iff] at htypes
    rw [htypes]
    rfl
  | cons param params ih =>
    cases types with
    | nil => cases htypes
    | cons t types =>
      obtain ⟨htype, htypes⟩ := List.cons_eq_cons.1 htypes
      rw [List.filterMap_cons_some
        (entry_of_mem_sourceParams (hmem param (List.mem_cons_self ..)) htype), List.map_cons,
        ih (fun p hp => hmem p (List.mem_cons_of_mem _ hp)) htypes]

/-- The types that are collected: those of the parameters, after what is taken for one. -/
theorem filterMap_entry (h : sig.Describes die) :
    die.children.filterMap Die.entry = die.artificialParams.filterMap Die.entry ++
      sig.params.map fun t => resolveTypeName t.die := by
  have hformal : die.children.filterMap Die.entry =
      (die.children.filter fun param => param.tag = .formalParameter).filterMap Die.entry := by
    rw [List.filterMap_filter]
    apply List.filterMap_congr
    intro param _
    by_cases htag : param.tag = .formalParameter
    · rw [if_pos (decide_eq_true htag)]
    · rw [if_neg (by rwa [decide_eq_true_eq]), Die.entry, if_neg fun h => htag h.1]
  rw [hformal, h.leading, List.filterMap_append, filterMap_entry_of_types (fun _ hp => hp) h.types]

/-- Nothing is taken for a parameter if the entries are flagged. -/
theorem filterMap_entry_of_flagged (h : die.Flagged) :
    die.artificialParams.filterMap Die.entry = [] := by
  rw [List.filterMap_eq_nil_iff]
  intro param hparam
  rw [Die.entry, if_neg fun h' => h'.2 (h param hparam)]

/-- Otherwise the first one is a pointer that the compiler has added. -/
theorem filterMap_entry_of_not_flagged (hsig : sig.Describes die) (h : ¬ die.Flagged) :
    ∃ type rest, die.artificialParams.filterMap Die.entry = resolveTypeName type :: rest ∧
      type.IsPointer := by
  have hentry : ∀ param ∈ die.artificialParams, ∀ name, param.entry = some name →
      ∃ type : TypeDie, type.IsPointer ∧ name = resolveTypeName type := by
    intro param hparam name hname
    obtain ⟨type, hpointer, htype⟩ := hsig.pointers param hparam
    rw [Die.entry] at hname
    split_ifs at hname
    rw [htype] at hname
    exact ⟨type, hpointer, (Option.some.inj hname).symm⟩
  cases hfirst : die.artificialParams.filterMap Die.entry with
  | nil =>
    rw [List.filterMap_eq_nil_iff] at hfirst
    apply absurd _ h
    intro param hparam
    by_contra hown
    obtain ⟨type, -, htype⟩ := hsig.pointers param hparam
    have hnone := hfirst param hparam
    rw [Die.entry, if_pos ⟨(Die.mem_artificialParams.1 hparam).2.1, hown⟩, htype] at hnone
    cases hnone
  | cons name rest =>
    have hname : name ∈ die.artificialParams.filterMap Die.entry := by
      rw [hfirst]
      exact List.mem_cons_self ..
    obtain ⟨param, hparam, hname⟩ := List.mem_filterMap.1 hname
    obtain ⟨type, hpointer, rfl⟩ := hentry param hparam name hname
    exact ⟨type, rest, rfl, hpointer⟩

/-- The method bit is set if there is a pointer in front. -/
theorem hasThis_iff (hsig : sig.Describes die) (h : die.Flagged) :
    die.children.any Die.isThis ↔ sig.artificial ≠ 0 := by
  rw [Die.any_isThis_iff, ← hsig.artificial, Ne, List.length_eq_zero_iff]
  constructor
  · rintro ⟨param, hparam, -⟩ hnil
    rw [hnil] at hparam
    cases hparam
  · intro hne
    obtain ⟨param, hparam⟩ := List.exists_mem_of_ne_nil _ hne
    exact ⟨param, hparam, h param hparam⟩

/-! ## Where the two agree -/

/-- The ABI, as `format_params` has it: at most one pointer is in front of the parameters of the
integer class, there are registers for those of floating-point type, and none is on the stack. -/
structure Plain (sig : Signature) : Prop where
  x87 : ∀ t ∈ sig.params, t.scalar.abiClass ≠ .x87
  sse : sig.params.countP (fun t => t.scalar.abiClass = .sse) ≤ 8
  integer : (∃ t ∈ sig.params, t.scalar.abiClass = .integer) →
    sig.artificial ≤ 1 ∧ sig.hiddenReturn = false

theorem getElem?_locations (sig : Signature) (i : ℕ) :
    sig.locations[i]? = sig.params[i]?.map fun t =>
      t.scalar.abiClass.location (sig.firstRegister t.scalar.abiClass +
        (sig.params.take i).countP fun u => u.scalar.abiClass = t.scalar.abiClass) := by
  rw [locations, List.getElem?_zipWith, getElem?_numbers]
  cases sig.params[i]? <;> rfl

/-- The place that `format_params` takes a parameter to be at, if it counts the integer registers
from `start` on. -/
def counted (sig : Signature) (start i : ℕ) (t : ScalarType) : Location :=
  if t.scalar.abiClass = .integer then
    AbiClass.integer.location
      (start + (sig.params.take i).countP fun u => u.scalar.abiClass = .integer)
  else .xmm ((sig.params.take i).countP fun u => u.scalar.abiClass ≠ .integer)

theorem countedLocation_eq (sig : Signature) (fi : FuncInfo) (i : ℕ) (t : ScalarType) :
    countedLocation (isFpParam (resolveTypeName t.die))
      (fi.firstRegister (isFpParam (resolveTypeName t.die)) +
        (sig.params.take i).countP fun u =>
          isFpParam (resolveTypeName u.die) = isFpParam (resolveTypeName t.die)) =
      sig.counted (fi.firstRegister false) i t := by
  simp only [ScalarType.isFpParam_eq, counted]
  by_cases ht : t.scalar.abiClass = .integer
  · simp [ht, countedLocation]
  · simp [ht, countedLocation, FuncInfo.firstRegister]

/-- Each parameter is shown from its place if the two ways of counting agree on it. -/
theorem shownByAbi_iff_counted
    (htypes : fi.paramTypes = sig.params.map fun t => resolveTypeName t.die) :
    sig.ShownByAbi fi ↔ ∀ i t, sig.params[i]? = some t →
      sig.locations[i]? = some (sig.counted (fi.firstRegister false) i t) := by
  have hshown : ∀ {raw idx i t loc}, sig.params[i]? = some t →
      ((loc.Shown (resolveTypeName t.die) fun d =>
        (Watch.exitEvent raw idx fi (some (Watch.entryData d idx fi))).params[i]?) ↔
      loc = sig.counted (fi.firstRegister false) i t) := by
    intro raw idx i t loc ht
    simp only [params_exitEvent, htypes, List.getElem?_map, ht, Option.map_some, ← List.map_take,
      List.countP_map]
    rw [shown_paramText_iff, ← countedLocation_eq]
    rfl
  constructor
  · intro h i t ht
    obtain ⟨loc, hloc⟩ : ∃ loc, sig.locations[i]? = some loc := by
      rw [getElem?_locations, ht]
      exact ⟨_, rfl⟩
    rw [hloc, (hshown ht).1 (h .exit 0 i t loc ht hloc)]
  · intro h raw idx i t loc ht hloc
    rw [h i t ht] at hloc
    exact (hshown ht).2 (Option.some.inj hloc).symm

theorem location_integer_inj {m n : ℕ} (hn : n < 6)
    (h : AbiClass.integer.location m = AbiClass.integer.location n) : m = n := by
  simp only [AbiClass.location, dif_pos hn] at h
  split_ifs at h
  exact congrArg Fin.val (Location.register.inj h)

/-- They do for the plain signatures. -/
theorem counted_iff_plain {start : ℕ} (hstart : start = min sig.artificial 1) :
    (∀ i t, sig.params[i]? = some t → sig.locations[i]? = some (sig.counted start i t)) ↔
      sig.Plain := by
  have hloc : ∀ {i : ℕ} {t : ScalarType} {loc : Location}, sig.params[i]? = some t →
      (sig.locations[i]? = some loc ↔ t.scalar.abiClass.location
        (sig.firstRegister t.scalar.abiClass + (sig.params.take i).countP fun u =>
          u.scalar.abiClass = t.scalar.abiClass) = loc) := by
    intro i t loc ht
    rw [getElem?_locations, ht, Option.map_some, Option.some.injEq]
  have hlead : start = sig.lead ↔ sig.artificial ≤ 1 ∧ sig.hiddenReturn = false := by
    rw [hstart, lead]
    cases sig.hiddenReturn with
    | false => simp
    | true => simp; omega
  constructor
  · intro h
    refine ⟨fun t ht hclass => ?_, ?_, ?_⟩
    · obtain ⟨i, hi⟩ := List.mem_iff_getElem?.1 ht
      have hmemory := (hloc hi).1 (h i t hi)
      rw [counted, hclass] at hmemory
      cases hmemory
    · -- the ninth one is on the stack
      by_contra hsse
      obtain ⟨i, t, hi, hclass, hcount⟩ := exists_countP_take (not_le.1 hsse)
      have hclass := of_decide_eq_true hclass
      have hmemory := (hloc hi).1 (h i t hi)
      rw [counted, hclass, hcount] at hmemory
      cases hmemory
    · rintro ⟨t, ht, hclass⟩
      have hpos : 0 < sig.params.countP fun t => t.scalar.abiClass = .integer :=
        List.countP_pos_iff.2 ⟨t, ht, decide_eq_true hclass⟩
      obtain ⟨i, t, hi, hclass, hcount⟩ := exists_countP_take hpos
      have hclass := of_decide_eq_true hclass
      have hfirst := (hloc hi).1 (h i t hi)
      rw [counted, hclass, if_pos rfl, hcount] at hfirst
      exact hlead.1 (location_integer_inj (by omega) hfirst).symm
  · intro h i t hi
    have ht := List.mem_of_getElem? hi
    rw [hloc hi, counted]
    cases hclass : t.scalar.abiClass with
    | integer => rw [if_pos rfl, hlead.2 (h.integer ⟨t, ht, hclass⟩), firstRegister]
    | sse =>
      have hsame : (sig.params.take i).countP (fun u => u.scalar.abiClass ≠ .integer) =
          (sig.params.take i).countP fun u => u.scalar.abiClass = .sse := by
        apply List.countP_congr
        intro u hu
        have hx87 := h.x87 u (List.mem_of_mem_take hu)
        cases hu' : u.scalar.abiClass with
        | integer => decide
        | sse => decide
        | x87 => exact absurd hu' hx87
      have hlt : (sig.params.take i).countP (fun u => u.scalar.abiClass = .sse) < 8 :=
        (countP_take_lt hi (decide_eq_true hclass)).trans_le h.sse
      rw [if_neg (by decide), hsame, firstRegister, Nat.zero_add, AbiClass.location, if_pos hlt]
    | x87 => exact absurd hclass (h.x87 t ht)

/-- Only a parameter of the integer class is first in a register. -/
theorem lead_eq_of_location {cls : AbiClass} {r : Fin 6}
    (h : cls.location (sig.firstRegister cls) = .register r) : sig.lead = r.val := by
  cases cls with
  | integer =>
    rw [firstRegister, AbiClass.location] at h
    split_ifs at h
    exact congrArg Fin.val (Location.register.inj h)
  | sse => cases h
  | x87 => cases h

/-- If a single pointer is added in front, then it alone can be flagged. -/
theorem not_isThis_of_length_eq_one (hone : die.artificialParams.length = 1)
    (h : ¬ die.Flagged) : ¬ die.children.any Die.isThis := by
  obtain ⟨param, hparam, hown⟩ := Die.exists_of_not_flagged h
  intro hthis
  obtain ⟨param', hparam', hown'⟩ := Die.any_isThis_iff.1 hthis
  obtain ⟨p, hp⟩ := List.length_eq_one_iff.1 hone
  rw [hp, List.mem_singleton] at hparam hparam'
  exact hown (hparam.trans hparam'.symm ▸ hown')

/-- A pointer that the compiler has added is shown in the place of the first parameter if its entry
is not flagged. -/
theorem not_shownByAbi_of_not_flagged {lo : Addr} {names : Text × Text}
    (hsig : sig.Describes die) (hne : sig.params ≠ []) (h : ¬ die.Flagged) :
    ¬ sig.ShownByAbi (die.info lo names) := by
  intro hshown
  obtain ⟨t, params, hparams⟩ := List.exists_cons_of_ne_nil hne
  obtain ⟨type, rest, hfirst, hpointer⟩ := filterMap_entry_of_not_flagged hsig h
  have htypes : (die.info lo names).paramTypes[0]? = some (resolveTypeName type) := by
    rw [Die.info, filterMap_entry hsig, hfirst]
    rfl
  have ht : sig.params[0]? = some t := by
    rw [hparams]
    rfl
  have hloc : sig.locations[0]? =
      some (t.scalar.abiClass.location (sig.firstRegister t.scalar.abiClass)) := by
    rw [getElem?_locations, ht]
    rfl
  -- the register that it is read from
  obtain ⟨r, hr⟩ : ∃ r : Fin 6, r.val = (die.info lo names).firstRegister false := by
    rw [FuncInfo.firstRegister]
    split_ifs
    · exact ⟨1, rfl⟩
    · exact ⟨0, rfl⟩
  have htext := hshown .exit 0 0 t _ ht hloc
  simp only [params_exitEvent, htypes, Option.map_some, isFpParam_of_hasTag hpointer,
    List.take_zero, List.countP_nil, Nat.add_zero, paramText, Bool.false_eq_true, if_false, ← hr,
    dif_pos r.isLt] at htext
  have hregister := htext.eq_register
  have hlead := lead_eq_of_location hregister
  -- it is the only one, so no other is flagged
  obtain ⟨param, hparam, -⟩ := Die.exists_of_not_flagged h
  have hpos : 0 < die.artificialParams.length := List.length_pos_of_mem hparam
  rw [hsig.artificial] at hpos
  rw [lead, hr, FuncInfo.firstRegister] at hlead
  split_ifs at hlead with hthis
  · have hone : die.artificialParams.length = 1 := by
      rw [hsig.artificial]
      omega
    exact not_isThis_of_length_eq_one hone h hthis
  · omega

/-- **The ABI is followed** for the plain signatures, if the entries of the parameters that the
compiler adds are flagged, and only for those; unless there is no parameter to be shown. -/
theorem shownByAbi_iff (h : processSubprogram cxaDemangle die = some fi)
    (hsig : sig.Describes die) :
    sig.ShownByAbi fi ↔ (sig.params ≠ [] → die.Flagged) ∧ sig.Plain := by
  obtain ⟨lo, names, -, -, -, -, rfl⟩ := processSubprogram_eq_some h
  by_cases hflagged : die.Flagged
  · have htypes : (die.info lo names).paramTypes =
        sig.params.map fun t => resolveTypeName t.die := by
      rw [Die.info, filterMap_entry hsig, filterMap_entry_of_flagged hflagged, List.nil_append]
    have hstart : (die.info lo names).firstRegister false = min sig.artificial 1 := by
      rw [FuncInfo.firstRegister, Die.info]
      split_ifs with hthis
      · have hpos := (hasThis_iff hsig hflagged).1 hthis
        omega
      · have hzero := not_not.1 (mt (hasThis_iff hsig hflagged).2 hthis)
        omega
    rw [shownByAbi_iff_counted htypes, counted_iff_plain hstart]
    exact ⟨fun hplain => ⟨fun _ => hflagged, hplain⟩, And.right⟩
  · by_cases hne : sig.params = []
    · refine iff_of_true (fun raw idx i t loc ht => ?_) ⟨fun h => absurd hne h, ?_, ?_, ?_⟩
      · rw [hne] at ht
        cases ht
      all_goals simp [hne]
    · exact iff_of_false (not_shownByAbi_of_not_flagged hsig hne hflagged) fun h =>
        hflagged (h.1 hne)

end Signature

/-! ## A method that returns a string -/

/-- `int`. -/
def ScalarType.int : ScalarType where
  die := .named (some "int".toList)
  wellNamed := by
    rintro n ⟨⟩
    exact .of_getLast? (a := 't') (by decide) (by decide) (by decide)
  scalar := .integer
  isScalar := ⟨_, rfl, by decide⟩

/-- `const string &`. -/
def ScalarType.stringRef : ScalarType where
  die := .derived .referenceType (.derived .constType (.named (some "string".toList)))
  wellNamed := by
    rintro n ⟨⟩
    exact .of_getLast? (a := 'g') (by decide) (by decide) (by decide)
  scalar := .reference
  isScalar := .inl (.inl ⟨_, rfl⟩)

/-- `void Foo::bar(int)`. -/
def Signature.bar : Signature where
  artificial := 1
  hiddenReturn := false
  params := [.int]

/-- `string Foo::bar(int, const string &)`. -/
def Signature.stringBar : Signature where
  artificial := 1
  hiddenReturn := true
  params := [.int, .stringRef]

/-- The entry of that method. -/
def Die.stringBar : Die :=
  .method [.this, .param ScalarType.int.die, .param ScalarType.stringRef.die]

theorem Signature.shownByAbi_bar : ∃ fi, processSubprogram (fun _ => none) .bar = some fi ∧
    Signature.bar.ShownByAbi fi := by
  have h : processSubprogram (fun _ => none) .bar = _ := processSubprogram_method _
  have hartificial : Die.bar.artificialParams = [.this] := rfl
  have hsig : Signature.bar.Describes .bar := by
    refine ⟨rfl, rfl, fun param hparam => ?_, rfl⟩
    rw [hartificial, List.mem_singleton] at hparam
    subst hparam
    exact ⟨_, .inl ⟨_, rfl⟩, rfl⟩
  refine ⟨_, h, (shownByAbi_iff h hsig).2 ⟨fun _ param hparam => ?_, ?_, ?_, ?_⟩⟩
  · rw [hartificial, List.mem_singleton] at hparam
    subst hparam
    rfl
  · intro t ht
    rw [List.mem_singleton.1 ht]
    decide
  · decide
  · exact fun _ => ⟨le_rfl, rfl⟩

/-- The registers at the entry of that method: the pointer to the result, `this`, `5` and the
address of the string. -/
def stringBarEntry : Delivery :=
  (.entry [0xA0, 0xB0, 5, 0xC0, 0, 0].get, .unreadable)

/-- The pointer to the result is not counted, so `this` is shown for `5`, and `5` for the address
of the string. -/
theorem Signature.not_shownByAbi_stringBar :
    Signature.stringBar.Describes .stringBar ∧
    Signature.stringBar.locations = [.register 2, .register 3] ∧
    (processSubprogram (fun _ => none) .stringBar).map (fun fi =>
      formatParams fi.paramTypes stringBarEntry.1.args fi.hasThis
        (resolveStrs stringBarEntry.2 stringBarEntry.1.args fi)) =
      some ["176".toList, "&0x5".toList] ∧
    ∀ fi, processSubprogram (fun _ => none) .stringBar = some fi →
      ¬ Signature.stringBar.ShownByAbi fi := by
  have h : processSubprogram (fun _ => none) .stringBar = _ := processSubprogram_method _
  have hartificial : Die.stringBar.artificialParams = [.this] := rfl
  refine ⟨⟨rfl, rfl, fun param hparam => ?_, rfl⟩, rfl, ?_, fun fi hfi hshown => ?_⟩
  · rw [hartificial, List.mem_singleton] at hparam
    subst hparam
    exact ⟨_, .inl ⟨_, rfl⟩, rfl⟩
  · rw [h, Option.map_some]
    decide
  · rw [h] at hfi
    obtain rfl := Option.some.inj hfi
    have htext := (hshown .exit 0 0 .int (.register 2) rfl rfl).register 2 rfl stringBarEntry
    revert htext
    decide

end Uatu
