import Uatu.Engine.TypeKinds
import Uatu.Engine.WatchChecked

/-!
# Return values

Both paths of `watch` show the return register by `return_type`, but `process_subprogram` leaves
that as it is constructed, so the whole register is shown as an unsigned number. `returnShown_iff`
says when this is the value by the declared type.
-/

namespace Uatu

/-! ## By no type -/

section Untyped

variable {v : Word}

/-- Without a type, the whole register is shown. -/
theorem formatIntVal_nil (v : Word) : formatIntVal v [] = decimal v.toNat := by
  rw [formatIntVal, formatParamVal_eq, show shape (stripCv []) = .unsigned from by decide]
  rfl

/-- The low bits, read as a signed number, are the whole register if the uppermost of them and all
others are clear. -/
theorem signedLow_eq_iff {width : ℕ} : signedLow width v = v.toNat ↔ v.toNat < 2 ^ (width - 1) := by
  have hwhole : v.toNat < 2 ^ width → v.toNat % 2 ^ width = v.toNat := Nat.mod_eq_of_lt
  have hlow : v.toNat % 2 ^ width < 2 ^ width := Nat.mod_lt _ (Nat.two_pow_pos _)
  rw [signedLow, BitVec.toInt_eq_toNat_cond, BitVec.toNat_setWidth]
  generalize v.toNat % 2 ^ width = low at *
  rcases width with _ | width
  · rw [Nat.pow_zero] at hwhole hlow ⊢
    split_ifs <;> omega
  · rw [Nat.pow_succ] at hwhole hlow ⊢
    rw [Nat.add_sub_cancel]
    generalize 2 ^ width = half at *
    split_ifs <;> omega

/-- The value is shown like one of no type. -/
def Shape.Untyped (v : Word) : Shape → Prop
  | .unsigned => True
  | .signed width => v.toNat < 2 ^ (width - 1)
  | .bool => False
  | .pointer _ => False
  | .reference => False

theorem Shape.text_eq_decimal_iff {sh : Shape} : sh.text v = decimal v.toNat ↔ sh.Untyped v := by
  cases sh with
  | bool =>
    refine iff_of_false (fun h => ?_) not_false
    rw [Shape.text] at h
    split_ifs at h
    · exact ne_decimal (a := 't') (by decide) (by decide) _ h
    · exact ne_decimal (a := 'f') (by decide) (by decide) _ h
  | signed width =>
    rw [Shape.text, signedDecimal_eq_decimal_iff]
    exact signedLow_eq_iff
  | pointer chars =>
    refine iff_of_false (fun h => ?_) not_false
    apply SourceType.not_isPointerText_decimal (v := v)
    rw [← h]
    exact SourceType.isPointerText_pointer chars
  | reference => exact iff_of_false SourceType.reference_ne_decimal not_false
  | unsigned => exact iff_of_true rfl trivial

end Untyped

/-! ## By the declared type -/

/-- The declared return type of a function, if it has one. -/
def Die.returnType (die : Die) : Option TypeDie := (die.attrIntegrate Attrs.type).join

/-- The text is what is to be shown for a value of the type: a pointer in any case as one. -/
structure TypeDie.Formats (T : TypeDie) (v : Word) (text : Text) : Prop where
  typed : text = formatIntVal v (resolveTypeName T)
  pointer : T.IsPointer → IsPointerText v text

/-- Both paths show the return value of the function by its declared type. -/
structure Die.ReturnShown (die : Die) (fi : FuncInfo) (v : Word) : Prop where
  ebpf : ∀ T, die.returnType = some T → ∀ (raw : RawEvent) (idx : ℕ) (cached : Option EntryData),
    raw.retVal = v → T.Formats v (Watch.exitEvent raw idx fi cached).retValue
  ptrace : ∀ T, die.returnType = some T → ∀ node : TraceNode, node.retRaw = v →
    T.Formats v (WatchChecked.ptraceEvent fi node).retValue

section ReturnShown

variable {cxaDemangle : CxaDemangle} {die : Die} {fi : FuncInfo} {T : TypeDie} {v : Word}

/-- No return type is collected. -/
theorem returnType_of_processSubprogram (h : processSubprogram cxaDemangle die = some fi) :
    fi.returnType = [] := by
  obtain ⟨lo, names, -, -, -, -, rfl⟩ := processSubprogram_eq_some h
  rfl

theorem formats_decimal_iff : T.Formats v (decimal v.toNat) ↔
    ¬ T.IsPointer ∧ (shape (stripCv (resolveTypeName T))).Untyped v := by
  rw [← Shape.text_eq_decimal_iff, ← formatParamVal_eq]
  constructor
  · rintro ⟨htyped, hpointer⟩
    exact ⟨fun hT => SourceType.not_isPointerText_decimal (hpointer hT), htyped.symm⟩
  · rintro ⟨hT, htyped⟩
    exact ⟨htyped.symm, fun hpointer => absurd hpointer hT⟩

/-- **The return value is shown by its type** if the type is no pointer and the value is shown
alike without any: always if the type is unsigned, and if the register is below half of its range
if it is signed, but never if it is `bool`. -/
theorem returnShown_iff (h : processSubprogram cxaDemangle die = some fi)
    (hT : die.returnType = some T) (v : Word) :
    die.ReturnShown fi v ↔
      ¬ T.IsPointer ∧ (shape (stripCv (resolveTypeName T))).Untyped v := by
  have hebpf : ∀ (raw : RawEvent) idx cached, raw.retVal = v →
      (Watch.exitEvent raw idx fi cached).retValue = decimal v.toNat := by
    rintro raw idx cached rfl
    rw [Watch.exitEvent, returnType_of_processSubprogram h, formatIntVal_nil]
  have hptrace : ∀ node : TraceNode, node.retRaw = v →
      (WatchChecked.ptraceEvent fi node).retValue = decimal v.toNat := by
    rintro node rfl
    rw [WatchChecked.ptraceEvent, returnType_of_processSubprogram h, formatIntVal_nil]
  rw [← formats_decimal_iff]
  constructor
  · intro hshown
    have hnode := hshown.ptrace T hT ⟨[], 0, v, []⟩ rfl
    rwa [hptrace _ rfl] at hnode
  · intro hformats
    refine ⟨fun T' hT' raw idx cached hv => ?_, fun T' hT' node hv => ?_⟩
    · obtain rfl := Option.some.inj (hT.symm.trans hT')
      rwa [hebpf raw idx cached hv]
    · obtain rfl := Option.some.inj (hT.symm.trans hT')
      rwa [hptrace node hv]

end ReturnShown

/-- A function that returns this type. -/
def Die.returning (T : TypeDie) : Die where
  tag := .subprogram
  lowpc := some 0x1100
  attrs := { name := some "f".toList, type := some (some T) }

theorem processSubprogram_returning (T : TypeDie) :
    processSubprogram (fun _ => none) (.returning T) =
      some ((Die.returning T).info 0x1100 ("f".toList, "f".toList)) :=
  processSubprogram_of_names rfl (by decide) rfl (by decide)

/-- `int f()`, when it returns `3`. -/
theorem returnShown_three : (Die.returning (.named (some "int".toList))).ReturnShown
    ((Die.returning (.named (some "int".toList))).info 0x1100 ("f".toList, "f".toList)) 3 := by
  apply (returnShown_iff (processSubprogram_returning _) rfl 3).2
  refine ⟨fun h => ?_, ?_⟩
  · rcases h with ⟨type, h⟩ | h <;> cases h
  · rw [show shape (stripCv (resolveTypeName (.named (some "int".toList)))) = .signed 32 from
      by decide]
    change (3 : Word).toNat < 2 ^ 31
    decide

/-- `int f()`, when it returns `-1`, and `bool f()`, when it returns `true`. -/
theorem not_returnShown_minusOne :
    let int := Die.returning (.named (some "int".toList))
    let bool := Die.returning (.named (some "bool".toList))
    let names := ("f".toList, "f".toList)
    (WatchChecked.ptraceEvent (int.info 0x1100 names) ⟨[], 0, 0xFFFFFFFF, []⟩).retValue =
      "4294967295".toList ∧
    formatIntVal 0xFFFFFFFF "int".toList = "-1".toList ∧
    processSubprogram (fun _ => none) int = some (int.info 0x1100 names) ∧
    ¬ int.ReturnShown (int.info 0x1100 names) 0xFFFFFFFF ∧
    processSubprogram (fun _ => none) bool = some (bool.info 0x1100 names) ∧
    ¬ bool.ReturnShown (bool.info 0x1100 names) 1 := by
  refine ⟨by decide, by decide, processSubprogram_returning _, fun h => ?_,
    processSubprogram_returning _, fun h => ?_⟩
  · have htyped := (h.ptrace _ rfl ⟨[], 0, 0xFFFFFFFF, []⟩ rfl).typed
    revert htyped
    decide
  · have htyped := (h.ptrace _ rfl ⟨[], 0, 1, []⟩ rfl).typed
    revert htyped
    decide

end Uatu
