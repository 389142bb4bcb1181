import Uatu.Dwarf.Die
import Uatu.Engine.Rendering

/-!
# The kind of a type, through its name

`resolve_type_name` flattens the entries of a type into a name, and `format_param_val` and
`is_char_ptr` take the kind of the type from the name again. `respected_iff` says that the kind
survives, through any nesting of types, unless a pointer or reference is made of `void`: for that
there is no entry to flatten, and the name says nothing at all.
-/

namespace Uatu

/-! ## Kinds -/

/-- The type is the same as the one it is made of, up to qualifiers and names. -/
def TypeTag.isWrapper : TypeTag → Bool
  | .constType | .volatileType | .restrictType | .typedef => true
  | .pointerType | .referenceType | .rvalueReferenceType => false

/-- The name of a type that is not made of another: it neither starts with a qualifier nor ends
with a mark. -/
structure PlainName (name : Text) : Prop where
  unqualified : stripCv name = name
  unmarked : ∀ a ∈ name.getLast?, a ≠ '*' ∧ a ≠ '&' ∧ a ≠ ' '

theorem PlainName.of_getLast? {name : Text} {a : Char} (hcv : stripCv name = name)
    (hlast : name.getLast? = some a) (ha : a ≠ '*' ∧ a ≠ '&' ∧ a ≠ ' ') : PlainName name where
  unqualified := hcv
  unmarked := by
    rw [hlast]
    rintro b ⟨⟩
    exact ha

namespace TypeDie

/-- The type without the wrappers around it. -/
def core : TypeDie → TypeDie
  | .derived tag type => if tag.isWrapper then type.core else .derived tag type
  | .ofVoid tag => .ofVoid tag
  | .named name => .named name

/-- The names of the types that are named are plain. -/
def WellNamed : TypeDie → Prop
  | .derived _ type => type.WellNamed
  | .ofVoid _ => True
  | .named name => ∀ n ∈ name, PlainName n

/-- The tag of the type, up to wrappers, is this. -/
def HasTag (t : TypeDie) (tag : TypeTag) : Prop := (∃ type, t.core = .derived tag type) ∨
  t.core = .ofVoid tag

def IsPointer (t : TypeDie) : Prop := t.HasTag .pointerType

def IsReference (t : TypeDie) : Prop := t.HasTag .referenceType ∨ t.HasTag .rvalueReferenceType

/-- A pointer to `char`, up to wrappers of both. -/
def IsCharPointer (t : TypeDie) : Prop :=
  ∃ type, t.core = .derived .pointerType type ∧ type.core = .named (some "char".toList)

/-- A pointer or a reference that is made of `void`. -/
def OverVoid (t : TypeDie) : Prop := ∃ tag, t.core = .ofVoid tag ∧ tag.isWrapper = false

end TypeDie

/-- A type as a C++ program has it. -/
structure SourceType where
  die : TypeDie
  wellNamed : die.WellNamed

/-! ## Names -/

section Names

variable {t : TypeDie} {tag : TypeTag}

theorem stripCv_wrap (h : tag.isWrapper) (s : Text) : stripCv (tag.wrap s) = stripCv s := by
  cases tag with
  | constType => exact stripCv_const s
  | volatileType => exact stripCv_volatile s
  | restrictType => rfl
  | typedef => rfl
  | pointerType => cases h
  | referenceType => cases h
  | rvalueReferenceType => cases h

/-- Wrappers are not seen in the name. -/
theorem stripCv_resolveTypeName_core (t : TypeDie) :
    stripCv (resolveTypeName t) = stripCv (resolveTypeName t.core) := by
  induction t with
  | derived tag type ih =>
    rw [TypeDie.core]
    split_ifs with hwrap
    · rw [resolveTypeName, stripCv_wrap hwrap, ih]
    · rfl
  | ofVoid tag => rfl
  | named name => rfl

theorem stripCv_star (s : Text) : stripCv (s ++ "*".toList) = stripCv s ++ "*".toList :=
  stripCv_concat (by decide) (by decide) s

theorem stripCv_amp (s : Text) : stripCv (s ++ "&".toList) = stripCv s ++ "&".toList :=
  stripCv_concat (by decide) (by decide) s

theorem stripCv_ampAmp (s : Text) : stripCv (s ++ "&&".toList) = stripCv s ++ "&&".toList := by
  have hsplit : ∀ s : Text, s ++ "&&".toList = (s ++ "&".toList) ++ "&".toList := fun s => by
    rw [List.append_assoc]
    rfl
  rw [hsplit, hsplit, stripCv_amp, stripCv_amp]

/-- What is left of the name of a type that is made of another. -/
theorem stripCv_wrap_of_not (h : tag.isWrapper = false) (s : Text) :
    stripCv (tag.wrap s) = tag.wrap (stripCv s) := by
  cases tag with
  | pointerType => exact stripCv_star s
  | referenceType => exact stripCv_amp s
  | rvalueReferenceType => exact stripCv_ampAmp s
  | constType => cases h
  | volatileType => cases h
  | restrictType => cases h
  | typedef => cases h

/-- The mark at the end of the name of a pointer or reference. -/
def TypeTag.mark (tag : TypeTag) : Char := if tag = .pointerType then '*' else '&'

theorem TypeTag.mark_eq (tag : TypeTag) : tag.mark = '*' ∨ tag.mark = '&' := by
  rw [mark]
  split_ifs
  · exact .inl rfl
  · exact .inr rfl

theorem getLast?_wrap (h : tag.isWrapper = false) (s : Text) :
    (tag.wrap s).getLast? = some tag.mark := by
  cases tag with
  | pointerType => exact List.getLast?_concat
  | referenceType => exact List.getLast?_concat
  | rvalueReferenceType =>
    change (s ++ (['&'] ++ ['&'])).getLast? = some '&'
    rw [← List.append_assoc]
    exact List.getLast?_concat
  | constType => cases h
  | volatileType => cases h
  | restrictType => cases h
  | typedef => cases h

theorem shape_star {s : Text} (h : s.getLast? = some '*') :
    shape s = .pointer ("char".toList <:+: s) := by
  have hnot : ∀ names : List Text, (∀ n ∈ names, n.getLast? ≠ some '*') → s ∉ names :=
    fun names hnames hs => hnames s hs h
  rw [shape, if_neg (hnot _ (by decide)), if_neg (hnot _ (by decide)), if_neg (hnot _ (by decide)),
    if_neg (hnot _ (by decide)), if_neg (hnot _ (by decide)), if_pos h]

theorem shape_amp {s : Text} (h : s.getLast? = some '&') : shape s = .reference := by
  have hnot : ∀ names : List Text, (∀ n ∈ names, n.getLast? ≠ some '&') → s ∉ names :=
    fun names hnames hs => hnames s hs h
  rw [shape, if_neg (hnot _ (by decide)), if_neg (hnot _ (by decide)), if_neg (hnot _ (by decide)),
    if_neg (hnot _ (by decide)), if_neg (hnot _ (by decide)), if_neg (by rw [h]; decide),
    if_pos h]

namespace TypeDie

/-- Without its wrappers, a type is no wrapper. -/
theorem core_eq_derived {type : TypeDie} (h : t.core = .derived tag type) :
    tag.isWrapper = false := by
  induction t with
  | derived tag' type' ih =>
    rw [core] at h
    split_ifs at h with hwrap
    · exact ih h
    · cases h
      exact Bool.eq_false_iff.2 hwrap
  | ofVoid tag' => cases h
  | named name => cases h

theorem WellNamed.core (h : t.WellNamed) : t.core.WellNamed := by
  induction t with
  | derived tag' type' ih =>
    rw [TypeDie.core]
    split_ifs with hwrap
    · exact ih h
    · exact h
  | ofVoid tag' => exact h
  | named name => exact h

/-- The name of a type without qualifiers, by the type without wrappers. -/
theorem stripCv_resolveTypeName_derived {type : TypeDie} (h : t.core = .derived tag type) :
    stripCv (resolveTypeName t) = tag.wrap (stripCv (resolveTypeName type)) := by
  rw [stripCv_resolveTypeName_core, h, resolveTypeName,
    stripCv_wrap_of_not (core_eq_derived h)]

theorem getLast?_stripCv_derived {type : TypeDie} (h : t.core = .derived tag type) :
    (stripCv (resolveTypeName t)).getLast? = some tag.mark := by
  rw [stripCv_resolveTypeName_derived h]
  exact getLast?_wrap (core_eq_derived h) _

/-- The name of a pointer or reference is not among names without a mark. -/
theorem stripCv_derived_notMem {type : TypeDie} (h : t.core = .derived tag type)
    {names : List Text} (hnames : ∀ n ∈ names, n.getLast? ≠ some '*' ∧ n.getLast? ≠ some '&') :
    stripCv (resolveTypeName t) ∉ names := by
  intro hmem
  have hlast := getLast?_stripCv_derived h
  rcases tag.mark_eq with hstar | hamp
  · exact (hnames _ hmem).1 (hstar ▸ hlast)
  · exact (hnames _ hmem).2 (hamp ▸ hlast)

theorem stripCv_resolveTypeName_ofVoid (h : t.core = .ofVoid tag) :
    stripCv (resolveTypeName t) = "?".toList := by
  rw [stripCv_resolveTypeName_core, h, resolveTypeName]
  decide

theorem stripCv_resolveTypeName_named (ht : t.WellNamed) {name : Option Text}
    (h : t.core = .named name) : stripCv (resolveTypeName t) = name.getD "?".toList := by
  have hname := h ▸ ht.core
  rw [stripCv_resolveTypeName_core, h, resolveTypeName]
  cases name with
  | none => decide
  | some n => exact (hname n rfl).unqualified

/-- The name of a type up to qualifiers is `char` only if the type is. -/
theorem stripCv_resolveTypeName_char (ht : t.WellNamed) :
    stripCv (resolveTypeName t) ∈ ["char".toList, "char ".toList] ↔
      t.core = .named (some "char".toList) := by
  cases hcore : t.core with
  | derived tag type =>
    exact iff_of_false (stripCv_derived_notMem hcore (by decide)) (by simp)
  | ofVoid tag =>
    rw [stripCv_resolveTypeName_ofVoid hcore]
    exact iff_of_false (by decide) (by simp)
  | named name =>
    rw [stripCv_resolveTypeName_named ht hcore]
    cases name with
    | none => exact iff_of_false (by decide) (by simp)
    | some n =>
      have hplain : PlainName n := (hcore ▸ ht.core) n rfl
      constructor
      · intro h
        rcases List.mem_cons.1 h with h | h
        · exact congrArg _ (congrArg _ h)
        · have hblank := List.mem_singleton.1 h
          exact absurd rfl (hplain.unmarked ' ' (by rw [show n = _ from hblank]; decide)).2.2
      · intro h
        cases h
        decide

theorem isCharPtr_iff (ht : t.WellNamed) : isCharPtr (resolveTypeName t) ↔ t.IsCharPointer := by
  rw [isCharPtr, decide_eq_true_eq]
  have hstar : ∀ s : Text, s ++ "*".toList ∈ ["char*".toList, "char *".toList] ↔
      s ∈ ["char".toList, "char ".toList] := by
    intro s
    rw [show "char*".toList = "char".toList ++ "*".toList from by decide,
      show "char *".toList = "char ".toList ++ "*".toList from by decide]
    simp only [List.mem_cons, List.append_left_inj, List.not_mem_nil, or_false]
  cases hcore : t.core with
  | derived tag type =>
    have htype : (derived tag type).WellNamed := hcore ▸ ht.core
    by_cases htag : tag = .pointerType
    · subst htag
      rw [stripCv_resolveTypeName_derived hcore]
      refine (hstar _).trans ((stripCv_resolveTypeName_char (t := type) htype).trans ?_)
      simp [IsCharPointer, hcore]
    · refine iff_of_false (fun h => ?_) (by simp [IsCharPointer, hcore, htag])
      have hmark : ∀ n ∈ ["char*".toList, "char *".toList], n.getLast? ≠ some '&' := by decide
      have hlast := getLast?_stripCv_derived hcore
      rw [TypeTag.mark, if_neg htag] at hlast
      exact hmark _ h hlast
  | ofVoid tag =>
    rw [stripCv_resolveTypeName_ofVoid hcore]
    exact iff_of_false (by decide) (by simp [IsCharPointer, hcore])
  | named name =>
    rw [stripCv_resolveTypeName_named ht hcore]
    refine iff_of_false (fun h => ?_) (by simp [IsCharPointer, hcore])
    have hmark : ∀ n ∈ ["char*".toList, "char *".toList], n.getLast? = some '*' := by decide
    cases name with
    | none => exact absurd h (by decide)
    | some n =>
      have hplain : PlainName n := (hcore ▸ ht.core) n rfl
      exact (hplain.unmarked '*' (hmark n h)).1 rfl

end TypeDie

end Names

/-! ## What is shown of a value of the type -/

/-- A pointer, as it is shown. -/
def IsPointerText (v : Word) (s : Text) : Prop :=
  if v = 0 then s = "nullptr".toList
  else s = "0x".toList ++ hex v ∨ s = "\"<0x".toList ++ hex v ++ ">\"".toList

instance (v : Word) (s : Text) : Decidable (IsPointerText v s) :=
  inferInstanceAs (Decidable (ite ..))

/-- The value is shown by the kind of its type, and a pointer to `char` is taken for one; wrappers
make no difference. -/
structure TypeDie.Respected (t : TypeDie) (v : Word) : Prop where
  pointer : t.IsPointer → IsPointerText v (formatParamVal v (resolveTypeName t))
  reference : t.IsReference → formatParamVal v (resolveTypeName t) = "&0x".toList ++ hex v
  charPointer : isCharPtr (resolveTypeName t) ↔ t.IsCharPointer
  wrapped : ∀ tag, tag.isWrapper → formatParamVal v (resolveTypeName (.derived tag t)) =
    formatParamVal v (resolveTypeName t)

namespace SourceType

variable {v : Word}

theorem isPointerText_pointer (chars : Bool) : IsPointerText v ((Shape.pointer chars).text v) := by
  rw [IsPointerText, Shape.text]
  split_ifs
  · rfl
  · exact .inr rfl
  · exact .inl rfl

theorem not_isPointerText_decimal : ¬ IsPointerText v (decimal v.toNat) := by
  rw [IsPointerText]
  split_ifs
  · exact fun h => ne_decimal (a := 'n') (by decide) (by decide) _ h.symm
  · rintro (h | h)
    · exact ne_decimal (a := 'x') (List.mem_append_left _ (by decide)) (by decide) _ h.symm
    · exact ne_decimal (a := 'x')
        (List.mem_append_left _ (List.mem_append_left _ (by decide))) (by decide) _ h.symm

theorem reference_ne_decimal : "&0x".toList ++ hex v ≠ decimal v.toNat :=
  ne_decimal (a := '&') (List.mem_append_left _ (by decide)) (by decide) _

/-- **The kind of a type survives** in its name, if it is not a pointer or a reference that is made
of `void`. -/
theorem respected_iff (t : SourceType) (v : Word) : t.die.Respected v ↔ ¬ t.die.OverVoid := by
  have hderived : ∀ {tag type}, t.die.core = .derived tag type →
      formatParamVal v (resolveTypeName t.die) =
        if tag = .pointerType then
          (Shape.pointer ("char".toList <:+: stripCv (resolveTypeName t.die))).text v
        else Shape.reference.text v := by
    intro tag type hcore
    have hlast := TypeDie.getLast?_stripCv_derived hcore
    rw [TypeTag.mark] at hlast
    rw [formatParamVal_eq]
    split_ifs with htag
    · rw [if_pos htag] at hlast
      rw [shape_star hlast]
    · rw [if_neg htag] at hlast
      rw [shape_amp hlast]
  have hvoid : ∀ {tag}, t.die.core = .ofVoid tag →
      formatParamVal v (resolveTypeName t.die) = decimal v.toNat := by
    intro tag hcore
    rw [formatParamVal_eq, TypeDie.stripCv_resolveTypeName_ofVoid hcore,
      show shape "?".toList = .unsigned from by decide]
    rfl
  constructor
  · rintro h ⟨tag, hcore, hwrap⟩
    cases tag with
    | pointerType =>
      have hpointer := h.pointer (.inr hcore)
      rw [hvoid hcore] at hpointer
      exact not_isPointerText_decimal hpointer
    | referenceType =>
      exact reference_ne_decimal ((h.reference (.inl (.inr hcore))).symm.trans (hvoid hcore))
    | rvalueReferenceType =>
      exact reference_ne_decimal ((h.reference (.inr (.inr hcore))).symm.trans (hvoid hcore))
    | constType => cases hwrap
    | volatileType => cases hwrap
    | restrictType => cases hwrap
    | typedef => cases hwrap
  · intro hover
    refine ⟨?_, ?_, TypeDie.isCharPtr_iff t.wellNamed, fun tag hwrap => ?_⟩
    · rintro (⟨type, hcore⟩ | hcore)
      · rw [hderived hcore, if_pos rfl]
        exact isPointerText_pointer _
      · exact absurd ⟨_, hcore, rfl⟩ hover
    · rintro ((⟨type, hcore⟩ | hcore) | (⟨type, hcore⟩ | hcore))
      · rw [hderived hcore, if_neg (by decide)]
        rfl
      · exact absurd ⟨_, hcore, rfl⟩ hover
      · rw [hderived hcore, if_neg (by decide)]
        rfl
      · exact absurd ⟨_, hcore, rfl⟩ hover
    · rw [formatParamVal_eq, formatParamVal_eq, resolveTypeName, stripCv_wrap hwrap]

end SourceType

/-- `const volatile char * const`. -/
def SourceType.constCharPtr : SourceType where
  die := .derived .constType (.derived .pointerType
    (.derived .constType (.derived .volatileType (.named (some "char".toList)))))
  wellNamed := by
    rintro n ⟨⟩
    exact .of_getLast? (a := 'r') (by decide) (by decide) (by decide)

/-- `void *`. -/
def SourceType.voidPtr : SourceType := ⟨.ofVoid .pointerType, trivial⟩

example : formatParamVal 0x1000 (resolveTypeName SourceType.constCharPtr.die) =
    "\"<0x1000>\"".toList := by decide

/-- A pointer that is not shown as one. -/
theorem SourceType.not_respected_voidPtr :
    resolveTypeName SourceType.voidPtr.die = "?".toList ∧
    formatParamVal 0x1000 (resolveTypeName SourceType.voidPtr.die) = "4096".toList ∧
    formatParamVal 0 (resolveTypeName SourceType.voidPtr.die) = "0".toList ∧
    ¬ SourceType.voidPtr.die.Respected 0x1000 := by
  refine ⟨by decide, by decide, by decide, fun h => ?_⟩
  have hpointer := h.pointer (.inr rfl)
  revert hpointer
  decide

end Uatu
