import Uatu.Dwarf.Die

/-!
# The functions of a forest of entries

`collect_subprograms` enters entries of six tags, and does not see what lies below others. What it
collects is compared with the functions that there are, wherever they are in the tree, in the order
of the document: `collectsAll_iff` says when the two are the same.
-/

namespace Uatu

/-! ## Traversals -/

/-- The tags of the entries that `collect_subprograms` enters. -/
def DieTag.entered : DieTag → Bool
  | .subprogram | .namespaceScope | .classType | .structureType | .lexicalBlock
  | .inlinedSubroutine => true
  | .formalParameter | .other => false

section Traversals

variable (enter : DieTag → Bool)

mutual

/-- The entries below an entry, in the order of the document, if only those are entered. -/
def Die.seen : Die → List Die
  | ⟨_, _, _, _, _, children⟩ => seenAmong children

/-- The same for a list of entries, with these. -/
def seenAmong : List Die → List Die
  | [] => []
  | child :: children =>
    child :: ((if enter child.tag then child.seen else []) ++ seenAmong children)

end

/-- All entries below an entry. -/
def Die.descendants (die : Die) : List Die := die.seen fun _ => true

mutual

/-- The entries that lie, further up, below one that is not entered. -/
def Die.hidden : Die → List Die
  | ⟨_, _, _, _, _, children⟩ => hiddenAmong children

/-- The same for a list of entries. -/
def hiddenAmong : List Die → List Die
  | [] => []
  | child :: children =>
    (if enter child.tag then child.hidden else child.descendants) ++ hiddenAmong children

end

end Traversals

section

variable {enter : DieTag → Bool}

mutual

/-- Every entry is seen or hidden, once. -/
theorem Die.perm_descendants : ∀ die : Die,
    die.descendants.Perm (die.seen enter ++ die.hidden enter)
  | ⟨_, _, _, _, _, children⟩ => perm_seenAmong children

theorem perm_seenAmong : ∀ dies : List Die,
    (seenAmong (fun _ => true) dies).Perm (seenAmong enter dies ++ hiddenAmong enter dies)
  | [] => .refl _
  | child :: children => by
    rw [seenAmong, seenAmong, hiddenAmong, if_pos rfl]
    have hchild : child.descendants.Perm
        ((if enter child.tag then child.seen enter else []) ++
          (if enter child.tag then child.hidden enter else child.descendants)) := by
      split_ifs
      · exact child.perm_descendants
      · exact .refl _
    have hall := hchild.append (perm_seenAmong children)
    rw [List.append_assoc] at hall
    rw [List.cons_append, List.append_assoc]
    exact (hall.trans (.append_left _ (List.perm_append_comm_assoc _ _ _))).cons child

end

variable {p : Die → Bool}

mutual

/-- If nothing of a kind is hidden, then it is seen in the order of the document. -/
theorem Die.filter_descendants : ∀ die : Die, (∀ x ∈ die.hidden enter, p x = false) →
    die.descendants.filter p = (die.seen enter).filter p
  | ⟨_, _, _, _, _, children⟩, h => filter_seenAmong children h

theorem filter_seenAmong : ∀ dies : List Die, (∀ x ∈ hiddenAmong enter dies, p x = false) →
    (seenAmong (fun _ => true) dies).filter p = (seenAmong enter dies).filter p
  | [], _ => rfl
  | child :: children, h => by
    rw [hiddenAmong, List.forall_mem_append] at h
    rw [seenAmong, seenAmong, if_pos rfl, List.filter_cons, List.filter_cons, List.filter_append,
      List.filter_append, filter_seenAmong children h.2]
    have hchild : child.descendants.filter p =
        (if enter child.tag then child.seen enter else []).filter p := by
      have hhidden := h.1
      split_ifs at hhidden ⊢
      · exact child.filter_descendants hhidden
      · exact List.filter_eq_nil_iff.2 fun x hx => by rw [hhidden x hx]; decide
    rw [← hchild]
    rfl

end

end

/-! ## What is collected -/

section

variable (cxaDemangle : CxaDemangle)

/-- What an entry that is seen puts into the cache. -/
def Die.collected (die : Die) : Option FuncInfo :=
  if die.tag = .subprogram then processSubprogram cxaDemangle die else none

mutual

theorem collectSubprograms_eq : ∀ die : Die, collectSubprograms cxaDemangle die =
    (die.seen DieTag.entered).filterMap (Die.collected cxaDemangle)
  | ⟨_, _, _, _, _, children⟩ => collectChildren_eq children

/-- The entries that are seen are collected in their order. -/
theorem collectChildren_eq : ∀ dies : List Die, collectChildren cxaDemangle dies =
    (seenAmong DieTag.entered dies).filterMap (Die.collected cxaDemangle)
  | [] => rfl
  | child :: children => by
    rw [collectChildren, seenAmong, collectChildren_eq children, collectSubprograms_eq child,
      List.filterMap_cons, List.filterMap_append, Die.collected]
    cases htag : child.tag with
    | subprogram =>
      rw [if_pos rfl, if_pos (show DieTag.entered .subprogram = true from rfl)]
      cases processSubprogram cxaDemangle child <;> rfl
    | formalParameter => rfl
    | other => rfl
    | namespaceScope => rfl
    | classType => rfl
    | structureType => rfl
    | lexicalBlock => rfl
    | inlinedSubroutine => rfl

end

end

/-! ## Functions -/

/-- A function with an address other than `0` and a name. -/
def Die.isFunction (die : Die) : Bool :=
  die.tag = .subprogram && die.lowpc.any (· ≠ 0) &&
    (die.mangled ≠ [] || die.diename.any (· ≠ []))

/-- What there is to be known of a function. -/
def Die.HasInfo (cxaDemangle : CxaDemangle) (die : Die) (fi : FuncInfo) : Prop :=
  ∃ lo names, die.lowpc = some lo ∧ die.names cxaDemangle = some names ∧ fi = die.info lo names

/-- Something of the linkage name is left, if there is one. -/
def Die.Nameable (cxaDemangle : CxaDemangle) (die : Die) : Prop :=
  die.mangled ≠ [] → stripParams (demangle cxaDemangle die.mangled) ≠ []

/-- The functions below the entries of the units are those that are collected, in the order of the
document. The entry of a unit itself is none. -/
def CollectsAll (cxaDemangle : CxaDemangle) (units : List Die) : Prop :=
  List.Forall₂ (Die.HasInfo cxaDemangle)
    ((units.flatMap Die.descendants).filter Die.isFunction)
    (SymbolFinder.all cxaDemangle units).cache

section Functions

variable {cxaDemangle : CxaDemangle} {die : Die} {fi : FuncInfo} {units : List Die}

theorem Die.isFunction_iff : die.isFunction ↔ die.tag = .subprogram ∧
    (∃ lo, die.lowpc = some lo ∧ lo ≠ 0) ∧
    (die.mangled ≠ [] ∨ ∃ n, die.diename = some n ∧ n ≠ []) := by
  simp [isFunction, Option.any_eq_true, and_assoc]

/-- Only functions are collected. -/
theorem Die.isFunction_of_collected (h : die.collected cxaDemangle = some fi) :
    die.isFunction ∧ die.Nameable cxaDemangle := by
  rw [collected] at h
  split_ifs at h with htag
  obtain ⟨lo, names, hlo, hzero, hnames, hempty, -⟩ := processSubprogram_eq_some h
  rw [Die.names] at hnames
  split_ifs at hnames with hmangled
  · obtain rfl := Option.some.inj hnames
    exact ⟨isFunction_iff.2 ⟨htag, ⟨lo, hlo, hzero⟩, .inl hmangled⟩, fun _ => hempty⟩
  · obtain ⟨n, hn, rfl⟩ := Option.map_eq_some_iff.1 hnames
    exact ⟨isFunction_iff.2 ⟨htag, ⟨lo, hlo, hzero⟩, .inr ⟨n, hn, hempty⟩⟩,
      fun hmangled' => absurd hmangled' hmangled⟩

/-- A function is collected if something of its name is left. -/
theorem Die.exists_collected (h : die.isFunction) (hname : die.Nameable cxaDemangle) :
    ∃ fi, die.collected cxaDemangle = some fi ∧ die.HasInfo cxaDemangle fi := by
  obtain ⟨htag, ⟨lo, hlo, hzero⟩, hnamed⟩ := isFunction_iff.1 h
  obtain ⟨names, hnames, hempty⟩ : ∃ names, die.names cxaDemangle = some names ∧ names.2 ≠ [] := by
    rw [Die.names]
    split_ifs with hmangled
    · exact ⟨_, rfl, hname hmangled⟩
    · obtain ⟨n, hn, hne⟩ := hnamed.resolve_left hmangled
      exact ⟨(n, n), by rw [hn]; rfl, hne⟩
  refine ⟨die.info lo names, ?_, lo, names, hlo, hnames, rfl⟩
  rw [collected, if_pos htag, processSubprogram_of_names hlo hzero hnames hempty]

theorem forall₂_filterMap_collected {l : List Die}
    (h : ∀ die ∈ l, die.isFunction → die.Nameable cxaDemangle) :
    List.Forall₂ (Die.HasInfo cxaDemangle) (l.filter Die.isFunction)
      (l.filterMap (Die.collected cxaDemangle)) := by
  induction l with
  | nil => exact .nil
  | cons die l ih =>
    rw [List.forall_mem_cons] at h
    by_cases hfunction : die.isFunction
    · obtain ⟨fi, hfi, hinfo⟩ := Die.exists_collected hfunction (h.1 hfunction)
      rw [List.filter_cons_of_pos hfunction, List.filterMap_cons_some hfi]
      exact .cons hinfo (ih h.2)
    · have hnone : die.collected cxaDemangle = none := by
        by_contra hsome
        obtain ⟨fi, hfi⟩ := Option.ne_none_iff_exists'.1 hsome
        exact hfunction (Die.isFunction_of_collected hfi).1
      rw [List.filter_cons_of_neg hfunction, List.filterMap_cons_none hnone]
      exact ih h.2

theorem cache_all (units : List Die) : (SymbolFinder.all cxaDemangle units).cache =
    (units.flatMap (Die.seen DieTag.entered)).filterMap (Die.collected cxaDemangle) := by
  have heach : collectSubprograms cxaDemangle =
      fun die => (die.seen DieTag.entered).filterMap (Die.collected cxaDemangle) :=
    funext (collectSubprograms_eq cxaDemangle)
  rw [SymbolFinder.all, heach, List.filterMap_flatMap]

/-- Every entry below one of the units is seen or hidden, once. -/
theorem perm_flatMap_descendants (enter : DieTag → Bool) (units : List Die) :
    (units.flatMap Die.descendants).Perm
      (units.flatMap (Die.seen enter) ++ units.flatMap (Die.hidden enter)) := by
  induction units with
  | nil => exact .refl _
  | cons unit units ih =>
    have hunit : unit.descendants.Perm (unit.seen enter ++ unit.hidden enter) :=
      unit.perm_descendants
    have hall := hunit.append ih
    rw [List.append_assoc] at hall
    rw [List.flatMap_cons, List.flatMap_cons, List.flatMap_cons, List.append_assoc]
    exact hall.trans (.append_left _ (List.perm_append_comm_assoc _ _ _))

theorem filter_flatMap_descendants {enter : DieTag → Bool} {p : Die → Bool}
    (h : ∀ die ∈ units.flatMap (Die.hidden enter), p die = false) :
    (units.flatMap Die.descendants).filter p = (units.flatMap (Die.seen enter)).filter p := by
  induction units with
  | nil => rfl
  | cons unit units ih =>
    rw [List.flatMap_cons, List.forall_mem_append] at h
    rw [List.flatMap_cons, List.flatMap_cons, List.filter_append, List.filter_append, ih h.2,
      unit.filter_descendants h.1]

/-- At most the functions of a list are collected. -/
theorem countP_collected_le (cxaDemangle : CxaDemangle) (l : List Die) :
    l.countP (fun die => (die.collected cxaDemangle).isSome) ≤ l.countP Die.isFunction := by
  refine List.countP_mono_left fun die _ hsome => ?_
  obtain ⟨fi, hfi⟩ := Option.isSome_iff_exists.1 hsome
  exact (Die.isFunction_of_collected hfi).1

/-- If as many are collected as there are functions, then each of them is. -/
theorem nameable_of_countP_le {l : List Die}
    (h : l.countP Die.isFunction ≤ l.countP fun die => (die.collected cxaDemangle).isSome) :
    ∀ die ∈ l, die.isFunction → die.Nameable cxaDemangle := by
  induction l with
  | nil => exact fun die hdie => absurd hdie List.not_mem_nil
  | cons first l ih =>
    have hle := countP_collected_le cxaDemangle l
    rw [List.countP_cons, List.countP_cons] at h
    rw [List.forall_mem_cons]
    cases hfi : first.collected cxaDemangle with
    | some fi =>
      have hfirst := Die.isFunction_of_collected hfi
      rw [hfi, if_pos hfirst.1, if_pos Option.isSome_some] at h
      exact ⟨fun _ => hfirst.2, ih (by omega)⟩
    | none =>
      rw [hfi, if_neg (show ¬ (none : Option FuncInfo).isSome = true from Bool.false_ne_true)] at h
      have hfirst : ¬ first.isFunction := by
        intro hfunction
        rw [if_pos hfunction] at h
        omega
      exact ⟨fun hfunction => absurd hfunction hfirst, ih (by omega)⟩

end Functions

/-- `all()` collects the functions below the units, each once and in their order, exactly if none of
them lies below an entry that is not entered, and each has something left of its name. -/
theorem collectsAll_iff (cxaDemangle : CxaDemangle) (units : List Die) :
    CollectsAll cxaDemangle units ↔
      (∀ die ∈ units.flatMap (Die.hidden DieTag.entered), die.isFunction = false) ∧
        ∀ die ∈ units.flatMap Die.descendants, die.isFunction → die.Nameable cxaDemangle := by
  have hperm := perm_flatMap_descendants DieTag.entered units
  constructor
  · intro hall
    -- As many are collected as there are functions; only what is seen is collected.
    have hcount : (units.flatMap Die.descendants).countP Die.isFunction =
        (units.flatMap (Die.seen DieTag.entered)).countP
          fun die => (die.collected cxaDemangle).isSome := by
      have hlength := hall.length_eq
      rwa [cache_all, ← List.countP_eq_length_filter, List.length_filterMap_eq_countP] at hlength
    have hle := countP_collected_le cxaDemangle
      (units.flatMap (Die.seen DieTag.entered))
    rw [hperm.countP_eq, List.countP_append] at hcount
    have hhidden : ∀ die ∈ units.flatMap (Die.hidden DieTag.entered), die.isFunction = false := by
      intro die hdie
      have hzero : (units.flatMap (Die.hidden DieTag.entered)).countP Die.isFunction = 0 := by
        omega
      exact Bool.eq_false_iff.2 (List.countP_eq_zero.1 hzero die hdie)
    refine ⟨hhidden, fun die hdie hfunction => ?_⟩
    rcases List.mem_append.1 (hperm.mem_iff.1 hdie) with hseen | hbelow
    · exact nameable_of_countP_le (by omega) die hseen hfunction
    · exact absurd hfunction (by rw [hhidden die hbelow]; exact Bool.false_ne_true)
  · rintro ⟨hhidden, hnameable⟩
    rw [CollectsAll, cache_all, filter_flatMap_descendants hhidden]
    exact forall₂_filterMap_collected fun die hdie =>
      hnameable die (hperm.mem_iff.2 (List.mem_append_left _ hdie))

/-- A function in a union is not collected. -/
theorem not_collectsAll_union :
    ¬ CollectsAll (fun _ => none)
      [{ tag := .other
         children := [{ tag := .other
                        children := [{ tag := .subprogram
                                       lowpc := some 0x1139
                                       attrs := { name := some "get".toList } }] }] }] := by
  intro hall
  have hlength := hall.length_eq
  revert hlength
  decide

end Uatu
