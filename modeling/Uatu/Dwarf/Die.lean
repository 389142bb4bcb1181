import Uatu.Dwarf.SymbolFinder

/-!
# From the debug information to the functions

The part of `SymbolFinder` of `src/dwarf/symbol_finder.cpp` that reads DWARF: `resolve_type_name`,
`process_subprogram`, `collect_subprograms` and the loop of `all()`. An entry is given by its own
attributes, those of the entries that `DW_AT_abstract_origin` and `DW_AT_specification` lead to one
after the other, and its children; attributes that are not read here are left out.
-/

namespace Uatu

/-! ## Types -/

/-- The tags of the types that `resolve_type_name` looks through. -/
inductive TypeTag
  | pointerType
  | referenceType
  | rvalueReferenceType
  | constType
  | volatileType
  | restrictType
  | typedef
  deriving DecidableEq

/-- The entry of a type. -/
inductive TypeDie
  /-- Made of the type that `DW_AT_type` refers to. -/
  | derived (tag : TypeTag) (type : TypeDie)
  /-- Made of `void`, for which there is no `DW_AT_type`. -/
  | ofVoid (tag : TypeTag)
  /-- Of any other tag, with its `DW_AT_name` if it has one. -/
  | named (name : Option Text)
  deriving DecidableEq

/-- The name of a type made of another, by the name of that. -/
def TypeTag.wrap : TypeTag → Text → Text
  | .pointerType, innerName => innerName ++ "*".toList
  | .referenceType, innerName => innerName ++ "&".toList
  | .rvalueReferenceType, innerName => innerName ++ "&&".toList
  | .constType, innerName => "const ".toList ++ innerName
  | .volatileType, innerName => "volatile ".toList ++ innerName
  | .restrictType, innerName => innerName
  | .typedef, innerName => innerName

/-- `resolve_type_name`. -/
def resolveTypeName : TypeDie → Text
  | .derived tag type => tag.wrap (resolveTypeName type)
  | .ofVoid _ => "?".toList
  | .named name => name.getD "?".toList

/-! ## Entries -/

/-- The tags that are told apart. -/
inductive DieTag
  | subprogram
  | formalParameter
  | namespaceScope
  | classType
  | structureType
  | lexicalBlock
  | inlinedSubroutine
  | other
  deriving DecidableEq

/-- The attributes that are looked up along the references of an entry, or for a parameter. -/
structure Attrs where
  name : Option Text := none
  linkageName : Option Text := none
  mipsLinkageName : Option Text := none
  /-- The flag of `DW_AT_artificial`. -/
  artificial : Option Bool := none
  /-- `DW_AT_type`: present with no type in it if its reference leads nowhere. -/
  type : Option (Option TypeDie) := none
  deriving DecidableEq

/-- What `dwarf_highpc` returns. -/
inductive HighPc
  | failed
  /-- `0`, and an address. -/
  | address (hi : Addr)
  /-- `1`, and a size. -/
  | size (hi : Word)
  deriving DecidableEq

/-- `Dwarf_Die`. -/
structure Die where
  tag : DieTag
  /-- What `dwarf_lowpc` finds. -/
  lowpc : Option Addr := none
  highpc : HighPc := .failed
  attrs : Attrs := {}
  /-- The attributes of the entries that its references lead to. -/
  origins : List Attrs := []
  children : List Die := []

namespace Die

/-- `dwarf_attr`. -/
def attr {α : Type} (die : Die) (search : Attrs → Option α) : Option α := search die.attrs

/-- `dwarf_attr_integrate`. -/
def attrIntegrate {α : Type} (die : Die) (search : Attrs → Option α) : Option α :=
  (die.attrs :: die.origins).findSome? search

/-- `dwarf_diename`. -/
def diename (die : Die) : Option Text := die.attrIntegrate Attrs.name

end Die

/-! ## Functions -/

/-- `abi::__cxa_demangle`: nothing if the name cannot be demangled. -/
abbrev CxaDemangle := Text → Option Text

/-- `demangle`. -/
def demangle (cxaDemangle : CxaDemangle) (mangled : Text) : Text :=
  if mangled = [] then [] else (cxaDemangle mangled).getD mangled

/-- `strip_params`. -/
def stripParams (demangled : Text) : Text := demangled.takeWhile (· ≠ '(')

namespace Die

/-- The linkage name, `""` if there is none. -/
def mangled (die : Die) : Text :=
  ((die.attrIntegrate Attrs.linkageName).orElse fun _ =>
    die.attrIntegrate Attrs.mipsLinkageName).getD []

/-- The mangled name and the name of a function. -/
def names (cxaDemangle : CxaDemangle) (die : Die) : Option (Text × Text) :=
  if die.mangled ≠ [] then
    some (die.mangled, stripParams (demangle cxaDemangle die.mangled))
  else die.diename.map fun n => (n, n)

/-- The size of a function that starts at `lo`. -/
def funcSize (die : Die) (lo : Addr) : Word :=
  match die.highpc with
  | .address hi => if hi > lo then hi - lo else 0
  | .size hi => hi
  | .failed => 0

end Die

/-- One round of the loop over the children of a function. -/
def FuncInfo.addParam (info : FuncInfo) (param : Die) : FuncInfo :=
  if param.tag ≠ .formalParameter then info
  else if param.attr Attrs.artificial = some true then { info with hasThis := true }
  else
    match param.attrIntegrate Attrs.type with
    | some (some type) => { info with paramTypes := info.paramTypes ++ [resolveTypeName type] }
    | some none => { info with paramTypes := info.paramTypes ++ ["?".toList] }
    | none => info

/-- `process_subprogram`: what it puts into the cache, if anything. -/
def processSubprogram (cxaDemangle : CxaDemangle) (die : Die) : Option FuncInfo := do
  let lo ← die.lowpc
  if lo = 0 then none
  else
    let (mangled, demangled) ← die.names cxaDemangle
    if demangled = [] then none
    else
      -- the return type is left as it is constructed
      let info : FuncInfo :=
        { name := demangled, mangledName := mangled, address := lo, size := die.funcSize lo,
          paramTypes := [], returnType := [], hasThis := false }
      return die.children.foldl FuncInfo.addParam info

/-! ### What is collected of a function -/

namespace Die

/-- The parameter is skipped, as the object of a method. -/
def isThis (param : Die) : Bool :=
  param.tag = .formalParameter && param.attr Attrs.artificial = some true

/-- The entry of `param_types` that a child makes, if it makes one. -/
def entry (param : Die) : Option Text :=
  if param.tag = .formalParameter ∧ param.attr Attrs.artificial ≠ some true then
    (param.attrIntegrate Attrs.type).map fun type => type.elim "?".toList resolveTypeName
  else none

/-- What is collected of a function, by its address and its names. -/
def info (die : Die) (lo : Addr) (names : Text × Text) : FuncInfo where
  name := names.2
  mangledName := names.1
  address := lo
  size := die.funcSize lo
  paramTypes := die.children.filterMap entry
  returnType := []
  hasThis := die.children.any isThis

end Die

theorem FuncInfo.addParam_eq (info : FuncInfo) (param : Die) :
    info.addParam param =
      { info with
        paramTypes := info.paramTypes ++ param.entry.toList
        hasThis := info.hasThis || param.isThis } := by
  unfold FuncInfo.addParam Die.entry Die.isThis
  by_cases htag : param.tag = .formalParameter
  · by_cases hart : param.attr Attrs.artificial = some true
    · simp [htag, hart]
    · rcases htype : param.attrIntegrate Attrs.type with _ | _ | type <;> simp [htag, hart]
  · simp [htag]

theorem FuncInfo.foldl_addParam (params : List Die) (info : FuncInfo) :
    params.foldl FuncInfo.addParam info =
      { info with
        paramTypes := info.paramTypes ++ params.filterMap Die.entry
        hasThis := info.hasThis || params.any Die.isThis } := by
  induction params generalizing info with
  | nil => simp
  | cons param params ih =>
    rw [List.foldl_cons, ih, addParam_eq]
    cases hentry : param.entry <;> simp [hentry, Bool.or_assoc]

section ProcessSubprogram

variable {cxaDemangle : CxaDemangle} {die : Die} {fi : FuncInfo} {lo : Addr} {names : Text × Text}

/-- A function is collected if it has an address and a name. -/
theorem processSubprogram_of_names (hlo : die.lowpc = some lo) (hzero : lo ≠ 0)
    (hnames : die.names cxaDemangle = some names) (hempty : names.2 ≠ []) :
    processSubprogram cxaDemangle die = some (die.info lo names) := by
  simp only [processSubprogram, hlo, hnames, Option.bind_eq_bind, Option.bind_some, if_neg hzero,
    if_neg hempty, FuncInfo.foldl_addParam]
  rfl

/-- Only then it is. -/
theorem processSubprogram_eq_some (h : processSubprogram cxaDemangle die = some fi) :
    ∃ lo names, die.lowpc = some lo ∧ lo ≠ 0 ∧ die.names cxaDemangle = some names ∧
      names.2 ≠ [] ∧ fi = die.info lo names := by
  obtain ⟨lo, hlo, hrest⟩ := Option.bind_eq_some_iff.1 h
  split_ifs at hrest with hzero
  obtain ⟨⟨mangled, demangled⟩, hnames, hrest⟩ := Option.bind_eq_some_iff.1 hrest
  have hempty : demangled ≠ [] := by
    rintro rfl
    cases hrest
  rw [processSubprogram_of_names hlo hzero hnames hempty] at h
  exact ⟨lo, _, hlo, hzero, hnames, hempty, (Option.some.inj h).symm⟩

end ProcessSubprogram

/-! ## All functions -/

mutual

/-- `collect_subprograms`: what it puts into the cache, in this order. -/
def collectSubprograms (cxaDemangle : CxaDemangle) : Die → List FuncInfo
  | ⟨_, _, _, _, _, children⟩ => collectChildren cxaDemangle children

/-- The loop of `collect_subprograms` over the children of an entry. -/
def collectChildren (cxaDemangle : CxaDemangle) : List Die → List FuncInfo
  | [] => []
  | child :: children =>
    (match child.tag with
      | .subprogram =>
        (processSubprogram cxaDemangle child).toList ++ collectSubprograms cxaDemangle child
      | .namespaceScope | .classType | .structureType | .lexicalBlock | .inlinedSubroutine =>
        collectSubprograms cxaDemangle child
      | .formalParameter | .other => []) ++ collectChildren cxaDemangle children

end

/-- `all`: the functions of the compilation units. -/
def SymbolFinder.all (cxaDemangle : CxaDemangle) (units : List Die) : SymbolFinder where
  cache := units.flatMap (collectSubprograms cxaDemangle)

end Uatu
