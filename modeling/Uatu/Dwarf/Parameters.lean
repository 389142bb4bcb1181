import Uatu.Dwarf.Die
import Mathlib.Data.List.Forall2

/-!
# The parameters of a function

The loop of `process_subprogram` looks for `DW_AT_type` along the references of a parameter, but for
`DW_AT_artificial` only at the parameter itself. `paramsKept_iff` says for which functions the
types that are collected are still those of the parameters in the source, one for each of them.
-/

namespace Uatu

/-! ## Lists -/

section Lists

variable {α β : Type}

/-- If some members of a list have a value each, and it has no more values, only they have one. -/
theorem countP_eq_imp {p q : α → Bool} {l : List α} (hpq : ∀ x ∈ l, p x → q x)
    (h : l.countP p = l.countP q) : ∀ x ∈ l, q x → p x := by
  induction l with
  | nil => simp
  | cons x l ih =>
    have hle := List.countP_mono_left fun y hy => hpq y (List.mem_cons_of_mem x hy)
    have hx := hpq x (List.mem_cons_self ..)
    rw [List.countP_cons, List.countP_cons] at h
    have hsame : q x → p x := by
      intro hqx
      by_contra hpx
      rw [if_neg hpx, if_pos hqx] at h
      omega
    have htail : l.countP p = l.countP q := by
      by_cases hpx : p x
      · rw [if_pos hpx, if_pos (hx hpx)] at h
        omega
      · rw [if_neg hpx, if_neg fun hqx => hpx (hsame hqx)] at h
        omega
    intro y hy
    rcases List.mem_cons.1 hy with rfl | hy
    · exact hsame
    · exact ih (fun z hz => hpq z (List.mem_cons_of_mem x hz)) htail y hy

theorem isSome_of_forall₂ {e : α → Option β} {xs : List α} {ys : List β}
    (h : List.Forall₂ (fun x y => e x = some y) xs ys) : ∀ x ∈ xs, (e x).isSome := by
  induction h with
  | nil => simp
  | cons hxy _ ih =>
    intro z hz
    rcases List.mem_cons.1 hz with rfl | hz
    · rw [hxy]
      rfl
    · exact ih z hz

/-- The values that a list yields are one for each of some members, in order, if just these members
have one. -/
theorem forall₂_filterMap_iff {q : α → Bool} {e : α → Option β} {l : List α} :
    List.Forall₂ (fun x y => e x = some y) (l.filter q) (l.filterMap e) ↔
      ∀ x ∈ l, q x = (e x).isSome := by
  constructor
  · intro h x hx
    have hsome : ∀ x ∈ l, q x → (e x).isSome := fun x hx hqx =>
      isSome_of_forall₂ h x (List.mem_filter.2 ⟨hx, hqx⟩)
    have hcount : l.countP q = l.countP fun x => (e x).isSome := by
      rw [← List.length_filterMap_eq_countP, List.countP_eq_length_filter, h.length_eq]
    exact Bool.eq_iff_iff.2 ⟨hsome x hx, countP_eq_imp hsome hcount x hx⟩
  · intro h
    induction l with
    | nil => exact .nil
    | cons x l ih =>
      have hl := ih fun y hy => h y (List.mem_cons_of_mem x hy)
      have hx := h x (List.mem_cons_self ..)
      cases hex : e x with
      | none =>
        rw [hex] at hx
        rwa [List.filter_cons_of_neg (by rw [hx]; simp), List.filterMap_cons_none hex]
      | some y =>
        rw [hex] at hx
        rw [List.filter_cons_of_pos (by rw [hx]; rfl), List.filterMap_cons_some hex]
        exact .cons hex hl

end Lists

/-! ## The parameters in the source -/

namespace Die

/-- The parameter is one that the compiler has added, as the references of its entry say. -/
def isArtificial (param : Die) : Bool := param.attrIntegrate Attrs.artificial = some true

/-- The parameters in the source, in the order of their declaration. -/
def sourceParams (die : Die) : List Die :=
  die.children.filter fun param => param.tag = .formalParameter && !param.isArtificial

/-- The parameters that the compiler has added. -/
def artificialParams (die : Die) : List Die :=
  die.children.filter fun param => param.tag = .formalParameter && param.isArtificial

theorem attrIntegrate_of_attr {α : Type} {die : Die} {search : Attrs → Option α} {a : α}
    (h : die.attr search = some a) : die.attrIntegrate search = some a := by
  rw [attrIntegrate, List.findSome?_cons, show search die.attrs = some a from h]

theorem isSome_entry_iff {param : Die} :
    param.entry.isSome ↔ param.tag = .formalParameter ∧
      param.attr Attrs.artificial ≠ some true ∧ param.attrIntegrate Attrs.type ≠ none := by
  rw [entry]
  split_ifs with h
  · rw [Option.isSome_map, Option.isSome_iff_ne_none]
    exact ⟨fun htype => ⟨h.1, h.2, htype⟩, fun htype => htype.2.2⟩
  · exact iff_of_false (by decide) fun h' => h ⟨h'.1, h'.2.1⟩

theorem mem_sourceParams {die param : Die} : param ∈ die.sourceParams ↔
    param ∈ die.children ∧ param.tag = .formalParameter ∧ ¬ param.isArtificial := by
  simp [sourceParams]

theorem mem_artificialParams {die param : Die} : param ∈ die.artificialParams ↔
    param ∈ die.children ∧ param.tag = .formalParameter ∧ param.isArtificial := by
  simp [artificialParams]

/-- The object of a method is seen if an entry says itself that the compiler has added it. -/
theorem any_isThis_iff {die : Die} : die.children.any isThis ↔
    ∃ param ∈ die.artificialParams, param.attr Attrs.artificial = some true := by
  rw [List.any_eq_true]
  refine exists_congr fun param => ?_
  rw [mem_artificialParams, isThis, Bool.and_eq_true, decide_eq_true_eq, decide_eq_true_eq]
  constructor
  · rintro ⟨hmem, htag, hart⟩
    exact ⟨⟨hmem, htag, decide_eq_true (attrIntegrate_of_attr hart)⟩, hart⟩
  · rintro ⟨⟨hmem, htag, -⟩, hart⟩
    exact ⟨hmem, htag, hart⟩

/-- A type is collected for the parameters in the source, and for no others. -/
theorem types_iff {die : Die} :
    (∀ param ∈ die.children,
      (param.tag = .formalParameter && !param.isArtificial) = param.entry.isSome) ↔
    (∀ param ∈ die.artificialParams,
      param.attr Attrs.artificial = some true ∨ param.attrIntegrate Attrs.type = none) ∧
    ∀ param ∈ die.sourceParams, param.attrIntegrate Attrs.type ≠ none := by
  simp only [mem_artificialParams, mem_sourceParams]
  constructor
  · intro h
    refine ⟨fun param ⟨hmem, htag, hart⟩ => ?_, fun param ⟨hmem, htag, hart⟩ => ?_⟩
    · by_contra hnot
      have hentry : param.entry.isSome :=
        isSome_entry_iff.2 ⟨htag, fun h => hnot (.inl h), fun h => hnot (.inr h)⟩
      rw [← h param hmem, hart] at hentry
      simp at hentry
    · have hentry : param.entry.isSome := by
        rw [← h param hmem]
        simp [htag, hart]
      exact (isSome_entry_iff.1 hentry).2.2
  · rintro ⟨hartificial, htyped⟩ param hmem
    rw [Bool.eq_iff_iff, isSome_entry_iff, Bool.and_eq_true, decide_eq_true_eq,
      Bool.not_eq_true']
    refine and_congr_right fun htag => ⟨fun hart => ?_, fun ⟨hown, htype⟩ => ?_⟩
    · have hart : ¬ param.isArtificial := by simp [hart]
      refine ⟨fun hown => hart (decide_eq_true (attrIntegrate_of_attr hown)), ?_⟩
      exact htyped param ⟨hmem, htag, hart⟩
    · by_contra hart
      have hart : param.isArtificial := by simpa using hart
      exact (hartificial param ⟨hmem, htag, hart⟩).elim hown htype

end Die

/-- The function is collected with one type for each parameter in the source, in their order, and
as a method if it has the object of one among the parameters that the compiler has added. -/
structure ParamsKept (object : Die → Prop) (die : Die) (fi : FuncInfo) : Prop where
  types : List.Forall₂ (fun param type => param.entry = some type) die.sourceParams fi.paramTypes
  this : fi.hasThis ↔ ∃ param ∈ die.artificialParams, object param

/-- The entries of the parameters say themselves which of them the compiler has added, and all
others have a type. -/
structure Die.SelfDescribing (object : Die → Prop) (die : Die) : Prop where
  artificial : ∀ param ∈ die.artificialParams,
    param.attr Attrs.artificial = some true ∨ param.attrIntegrate Attrs.type = none
  typed : ∀ param ∈ die.sourceParams, param.attrIntegrate Attrs.type ≠ none
  object : (∃ param ∈ die.artificialParams, param.attr Attrs.artificial = some true) ↔
    ∃ param ∈ die.artificialParams, object param

/-- **The parameters are kept** for the functions whose entries describe themselves, and only for
those. -/
theorem paramsKept_iff {cxaDemangle : CxaDemangle} {die : Die} {fi : FuncInfo}
    (object : Die → Prop) (h : processSubprogram cxaDemangle die = some fi) :
    ParamsKept object die fi ↔ die.SelfDescribing object := by
  obtain ⟨lo, names, -, -, -, -, rfl⟩ := processSubprogram_eq_some h
  constructor
  · intro hkept
    obtain ⟨hartificial, htyped⟩ := Die.types_iff.1 (forall₂_filterMap_iff.1 hkept.types)
    exact ⟨hartificial, htyped, Die.any_isThis_iff.symm.trans hkept.this⟩
  · rintro ⟨hartificial, htyped, hobject⟩
    exact ⟨forall₂_filterMap_iff.2 (Die.types_iff.2 ⟨hartificial, htyped⟩),
      Die.any_isThis_iff.trans hobject⟩

/-- The entry of a parameter of this type. -/
def Die.param (type : TypeDie) : Die where
  tag := .formalParameter
  attrs := { type := some (some type) }

/-- The entry of the object of a method. -/
def Die.this : Die where
  tag := .formalParameter
  attrs :=
    { name := some "this".toList, artificial := some true,
      type := some (some (.derived .pointerType (.named (some "Foo".toList)))) }

/-- The entry of a parameter in an instance of the function, which refers to the parameter of the
function. -/
def Die.instanceOf (param : Die) : Die := { tag := .formalParameter, origins := [param.attrs] }

/-- A method at this address. -/
def Die.method (children : List Die) : Die where
  tag := .subprogram
  lowpc := some 0x1100
  attrs := { name := some "Foo::bar".toList }
  children := children

theorem processSubprogram_method (children : List Die) :
    processSubprogram (fun _ => none) (.method children) =
      some ((Die.method children).info 0x1100 ("Foo::bar".toList, "Foo::bar".toList)) :=
  processSubprogram_of_names rfl (by decide) rfl (by decide)

/-- A method with one parameter, defined where it is declared. -/
def Die.bar : Die := .method [.this, .param (.named (some "int".toList))]

/-- The out-of-line instance of that method, if it is declared inline. -/
def Die.barInstance : Die :=
  .method [.instanceOf .this, .instanceOf (.param (.named (some "int".toList)))]

theorem paramsKept_bar : ∃ fi, processSubprogram (fun _ => none) .bar = some fi ∧
    ParamsKept (fun param => param.diename = some "this".toList) .bar fi := by
  have h : processSubprogram (fun _ => none) .bar = _ := processSubprogram_method _
  have hsource : Die.bar.sourceParams = [.param (.named (some "int".toList))] := rfl
  have hartificial : Die.bar.artificialParams = [.this] := rfl
  refine ⟨_, h, (paramsKept_iff _ h).2 ⟨?_, ?_, ?_⟩⟩
  · rw [hartificial]
    rintro param hparam
    rw [List.mem_singleton.1 hparam]
    exact .inl rfl
  · rw [hsource]
    rintro param hparam
    rw [List.mem_singleton.1 hparam]
    decide
  · rw [hartificial]
    exact iff_of_true ⟨_, List.mem_singleton_self _, rfl⟩ ⟨_, List.mem_singleton_self _, rfl⟩

/-- In the instance, the object of the method is taken for a parameter. -/
theorem not_paramsKept_barInstance :
    (processSubprogram (fun _ => none) .barInstance).map (fun fi => (fi.paramTypes, fi.hasThis)) =
      some (["Foo*".toList, "int".toList], false) ∧
    Die.barInstance.sourceParams.length = 1 ∧
    ∀ fi, processSubprogram (fun _ => none) .barInstance = some fi →
      ¬ ParamsKept (fun param => param.diename = some "this".toList) .barInstance fi := by
  have h : processSubprogram (fun _ => none) .barInstance =
      some (Die.barInstance.info 0x1100 ("Foo::bar".toList, "Foo::bar".toList)) :=
    processSubprogram_method _
  have htypes : (Die.barInstance.info 0x1100 ("Foo::bar".toList, "Foo::bar".toList)).paramTypes =
      ["Foo*".toList, "int".toList] := by decide
  refine ⟨?_, rfl, fun fi hfi hkept => ?_⟩
  · rw [h, Option.map_some, htypes]
    decide
  · rw [h] at hfi
    obtain rfl := Option.some.inj hfi
    have hlen := hkept.types.length_eq
    rw [htypes] at hlen
    exact absurd hlen (by decide)

end Uatu
