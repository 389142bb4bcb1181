import Uatu.Engine.Arguments

/-!
# The two walks over the parameters

The entry callback and `format_params` each count the integer registers for themselves: the first
goes on counting behind the sixth one, the second stops there. Here both loops are written down
together with the indices at which they read the array of registers, which could be any. A parameter
has the same register in both, and there are no other reads (`FuncInfo.walksAgree`).
-/

namespace Uatu

/-! ## The loops, with their reads -/

section Walks

variable (mem : ProcMem) (regs : ℕ → Word)

/-- The array of the six registers. -/
def sixOf : Args := fun r => regs r

/-- What the entry callback finds for a parameter, and the indices that it reads for that. -/
def entryRead (t : Text) (intR : ℕ) : Text × List ℕ :=
  if isFpParam t then ([], [])
  else if intR < 6 ∧ isCharPtr t = true then
    if regs intR ≠ 0 then (readProcMemStr mem (regs intR) 256, [intR, intR]) else ([], [intR])
  else ([], [])

/-- The loop of the entry callback. -/
def entryWalk : List Text → ℕ → List (Text × List ℕ)
  | [], _ => []
  | t :: ts, intR =>
    entryRead mem regs t intR :: entryWalk ts (if isFpParam t then intR else intR + 1)

/-- What `format_params` shows for a parameter, and the indices that it reads for that. -/
def formatRead (t str : Text) (intReg fpReg : ℕ) : Text × List ℕ :=
  if isFpParam t then (xmmText fpReg, [])
  else if intReg < 6 then
    if str ≠ [] then (quoted str, []) else (formatParamVal (regs intReg) t, [intReg])
  else ("?".toList, [])

/-- The loop of `format_params`. -/
def formatWalk : List Text → List Text → ℕ → ℕ → List (Text × List ℕ)
  | [], _, _, _ => []
  | t :: ts, strVals, intReg, fpReg =>
    formatRead regs t (strVals.head?.getD []) intReg fpReg ::
      if isFpParam t then formatWalk ts strVals.tail intReg (fpReg + 1)
      else if intReg < 6 then formatWalk ts strVals.tail (intReg + 1) fpReg
      else formatWalk ts strVals.tail intReg fpReg

variable {mem regs} {types strVals : List Text} {t str : Text} {intR intReg fpReg i : ℕ}

/-- The strings are those that the callback stores. -/
theorem map_fst_entryWalk :
    (entryWalk mem regs types intR).map Prod.fst =
      resolveStrsFrom mem (sixOf regs) types intR := by
  induction types generalizing intR with
  | nil => rfl
  | cons t types ih =>
    rw [entryWalk, resolveStrsFrom, List.map_cons, ih, entryRead]
    by_cases ht : isFpParam t
    · rw [if_pos ht, if_pos ht, if_pos ht]
    · rw [if_neg ht, if_neg ht, if_neg ht]
      congr 1
      by_cases hreg : intR < 6
      · rw [dif_pos hreg]
        by_cases hchar : isCharPtr t = true
        · rw [if_pos ⟨hreg, hchar⟩]
          by_cases hzero : regs intR = 0
          · rw [if_neg (not_not.2 hzero), if_neg fun h => h.2 hzero]
          · rw [if_pos hzero, if_pos ⟨hchar, hzero⟩]
            rfl
        · rw [if_neg fun h => hchar h.2, if_neg fun h => hchar h.1]
      · rw [dif_neg hreg, if_neg fun h => hreg h.1]

/-- The texts are those that `format_params` returns. -/
theorem map_fst_formatWalk :
    (formatWalk regs types strVals intReg fpReg).map Prod.fst =
      formatParamsFrom (sixOf regs) types strVals intReg fpReg := by
  induction types generalizing strVals intReg fpReg with
  | nil => rfl
  | cons t types ih =>
    rw [formatWalk, formatParamsFrom, List.map_cons, formatRead]
    by_cases ht : isFpParam t
    · rw [if_pos ht, if_pos ht, if_pos ht, ih]
      rfl
    · rw [if_neg ht, if_neg ht, if_neg ht]
      by_cases hreg : intReg < 6
      · rw [if_pos hreg, if_pos hreg, dif_pos hreg, ih]
        congr 1
        split_ifs <;> rfl
      · rw [if_neg hreg, if_neg hreg, dif_neg hreg, ih]

theorem length_entryWalk : (entryWalk mem regs types intR).length = types.length := by
  induction types generalizing intR with
  | nil => rfl
  | cons t types ih => rw [entryWalk, List.length_cons, List.length_cons, ih]

/-- The register of a parameter is behind those of the parameters before it. -/
theorem getElem?_entryWalk (types : List Text) (intR i : ℕ) :
    (entryWalk mem regs types intR)[i]? = types[i]?.map fun t =>
      entryRead mem regs t (intR + (types.take i).countP fun u => isFpParam u = false) := by
  induction types generalizing intR i with
  | nil => rfl
  | cons t types ih =>
    rw [entryWalk]
    cases i with
    | zero => rfl
    | succ i =>
      rw [List.getElem?_cons_succ, List.getElem?_cons_succ, ih]
      congr 1
      funext u
      congr 1
      rw [List.take_succ_cons, List.countP_cons]
      cases isFpParam t with
      | true => simp
      | false =>
        simp
        omega

/-- Behind the sixth register, they are all alike. -/
theorem formatRead_of_le {m n : ℕ} (hm : 6 ≤ m) (hn : 6 ≤ n) :
    formatRead regs t str m fpReg = formatRead regs t str n fpReg := by
  rw [formatRead, formatRead, if_neg (not_lt.2 hm), if_neg (not_lt.2 hn)]

/-- It is also here, though the loop does not count on behind the sixth one. -/
theorem getElem?_formatWalk (types strVals : List Text) (intReg fpReg i : ℕ) :
    (formatWalk regs types strVals intReg fpReg)[i]? = types[i]?.map fun t =>
      formatRead regs t (strVals[i]?.getD [])
        (intReg + (types.take i).countP fun u => isFpParam u = false)
        (fpReg + (types.take i).countP fun u => isFpParam u = true) := by
  induction types generalizing strVals intReg fpReg i with
  | nil => rfl
  | cons t types ih =>
    rw [formatWalk]
    cases i with
    | zero => rw [List.head?_eq_getElem?]; rfl
    | succ i =>
      have htail : strVals.tail[i]? = strVals[i + 1]? := List.getElem?_tail
      rw [List.getElem?_cons_succ, List.getElem?_cons_succ, List.take_succ_cons, List.countP_cons,
        List.countP_cons]
      by_cases ht : isFpParam t
      · rw [if_pos ht, ih, htail]
        congr 1
        funext u
        congr 1
        · simp [ht]
        · simp [ht]
          omega
      · rw [if_neg ht]
        rw [Bool.not_eq_true] at ht
        by_cases hreg : intReg < 6
        · rw [if_pos hreg, ih, htail]
          congr 1
          funext u
          congr 1
          · simp [ht]
            omega
          · simp [ht]
        · rw [if_neg hreg, ih, htail]
          congr 1
          funext u
          simp only [ht, decide_true, if_true, Bool.false_eq_true, decide_false, if_false,
            Nat.add_zero]
          exact formatRead_of_le (by omega) (by omega)

end Walks

/-! ## Registers -/

/-- The number of the parameter at a position among those that are not of floating-point type. -/
def FuncInfo.intNumber (fi : FuncInfo) (i : ℕ) : ℕ :=
  fi.firstRegister false + (fi.paramTypes.take i).countP fun t => isFpParam t = false

/-- The register of the parameter at a position, if it has one of the six. -/
def FuncInfo.registerOf (fi : FuncInfo) (i : ℕ) : Option (Fin 6) :=
  fi.paramTypes[i]?.bind fun t =>
    if h : isFpParam t = false ∧ fi.intNumber i < 6 then some ⟨fi.intNumber i, h.2⟩ else none

section Register

variable {fi : FuncInfo} {i j : ℕ} {t : Text} {r : Fin 6}

theorem FuncInfo.registerOf_eq_some (h : fi.registerOf i = some r) :
    (∃ t, fi.paramTypes[i]? = some t ∧ isFpParam t = false) ∧ r.val = fi.intNumber i := by
  obtain ⟨t, ht, hr⟩ := Option.bind_eq_some_iff.1 h
  split_ifs at hr with hint
  exact ⟨⟨t, ht, hint.1⟩, (congrArg Fin.val (Option.some.inj hr)).symm⟩

/-- Later parameters have later registers. -/
theorem FuncInfo.intNumber_lt (ht : fi.paramTypes[i]? = some t) (hfp : isFpParam t = false)
    (hij : i < j) : fi.intNumber i < fi.intNumber j := by
  have hsplit : fi.paramTypes.take (i + 1) = fi.paramTypes.take i ++ [t] := by
    rw [List.take_add_one, ht]
    rfl
  have hle : (fi.paramTypes.take (i + 1)).countP (fun t => isFpParam t = false) ≤
      (fi.paramTypes.take j).countP fun t => isFpParam t = false :=
    (List.take_sublist_take_left hij).countP_le
  rw [hsplit, List.countP_append, List.countP_singleton, if_pos (decide_eq_true hfp)] at hle
  rw [intNumber, intNumber]
  omega

/-- No two parameters share a register. -/
theorem FuncInfo.registerOf_inj (hi : fi.registerOf i = some r) (hj : fi.registerOf j = some r) :
    i = j := by
  obtain ⟨⟨t, ht, hfp⟩, hr⟩ := registerOf_eq_some hi
  obtain ⟨⟨t', ht', hfp'⟩, hr'⟩ := registerOf_eq_some hj
  rcases lt_trichotomy i j with h | h | h
  · have hlt := intNumber_lt ht hfp h
    omega
  · exact h
  · have hlt := intNumber_lt ht' hfp' h
    omega

theorem FuncInfo.registerOf_of_fp (ht : fi.paramTypes[i]? = some t) (hfp : isFpParam t) :
    fi.registerOf i = none := by
  rw [registerOf, ht, Option.bind_some, dif_neg]
  rintro ⟨hint, -⟩
  rw [hfp] at hint
  cases hint

theorem FuncInfo.registerOf_of_lt (ht : fi.paramTypes[i]? = some t) (hfp : ¬ isFpParam t)
    (hlt : fi.intNumber i < 6) : fi.registerOf i = some ⟨fi.intNumber i, hlt⟩ := by
  rw [registerOf, ht, Option.bind_some, dif_pos ⟨Bool.not_eq_true _ ▸ hfp, hlt⟩]

theorem FuncInfo.registerOf_of_le (ht : fi.paramTypes[i]? = some t) (hle : ¬ fi.intNumber i < 6) :
    fi.registerOf i = none := by
  rw [registerOf, ht, Option.bind_some, dif_neg fun h => hle h.2]

end Register

/-! ## Agreement -/

section Agreement

variable (mem : ProcMem) (regs : ℕ → Word)

/-- The string at the pointer in a register, for a character pointer. -/
def storedFor (t : Text) : Option (Fin 6) → Text
  | some r => if isCharPtr t = true ∧ regs r ≠ 0 then readProcMemStr mem (regs r) 256 else []
  | none => []

/-- The text for a parameter in a register, or without one. It is the `k`-th one of floating-point
type if it is of such a type. -/
def shownFor (t str : Text) (k : ℕ) : Option (Fin 6) → Text
  | some r => if str ≠ [] then quoted str else formatParamVal (regs r) t
  | none => if isFpParam t then xmmText k else "?".toList

variable {mem regs} {fi : FuncInfo} {i k : ℕ} {t str : Text}

/-- The callback reads a parameter's own register only. -/
theorem entryRead_registerOf (ht : fi.paramTypes[i]? = some t) :
    (entryRead mem regs t (fi.intNumber i)).1 = storedFor mem regs t (fi.registerOf i) ∧
    ∀ n ∈ (entryRead mem regs t (fi.intNumber i)).2, (fi.registerOf i).map Fin.val = some n := by
  rw [entryRead]
  by_cases hfp : isFpParam t
  · rw [if_pos hfp, fi.registerOf_of_fp ht hfp]
    exact ⟨rfl, nofun⟩
  · rw [if_neg hfp]
    by_cases hlt : fi.intNumber i < 6
    · rw [fi.registerOf_of_lt ht hfp hlt, storedFor]
      split_ifs with hchar hzero hread hread
      · exact ⟨rfl, by simp⟩
      · exact absurd ⟨hchar.2, hzero⟩ hread
      · exact absurd hread.2 hzero
      · exact ⟨rfl, by simp⟩
      · rename_i hread
        exact absurd ⟨hlt, hread.1⟩ hchar
      · exact ⟨rfl, nofun⟩
    · rw [if_neg fun h => hlt h.1, fi.registerOf_of_le ht hlt]
      exact ⟨rfl, nofun⟩

/-- So does `format_params`. -/
theorem formatRead_registerOf (ht : fi.paramTypes[i]? = some t) :
    (formatRead regs t str (fi.intNumber i) k).1 = shownFor regs t str k (fi.registerOf i) ∧
    ∀ n ∈ (formatRead regs t str (fi.intNumber i) k).2,
      (fi.registerOf i).map Fin.val = some n := by
  rw [formatRead]
  by_cases hfp : isFpParam t
  · rw [if_pos hfp, fi.registerOf_of_fp ht hfp, shownFor, if_pos hfp]
    exact ⟨rfl, nofun⟩
  · rw [if_neg hfp]
    by_cases hlt : fi.intNumber i < 6
    · rw [if_pos hlt, fi.registerOf_of_lt ht hfp hlt, shownFor]
      split_ifs
      · exact ⟨rfl, nofun⟩
      · exact ⟨rfl, by simp⟩
    · rw [if_neg hlt, fi.registerOf_of_le ht hlt, shownFor, if_neg hfp]
      exact ⟨rfl, nofun⟩

end Agreement

/-- Both loops do the same with the registers, which begin at `regs 0`. -/
structure FuncInfo.WalksAgree (fi : FuncInfo) (mem : ProcMem) (regs : ℕ → Word) : Prop where
  /-- There is one string and one text for each parameter. -/
  strings : (resolveStrs mem (sixOf regs) fi).length = fi.paramTypes.length
  texts : ∀ strVals,
    (formatParams fi.paramTypes (sixOf regs) fi.hasThis strVals).length = fi.paramTypes.length
  /-- A string is read through the register of its parameter. -/
  stored : ∀ i t, fi.paramTypes[i]? = some t →
    (resolveStrs mem (sixOf regs) fi)[i]? = some (storedFor mem regs t (fi.registerOf i))
  /-- That register is also the one that `format_params` uses, whatever the strings are. -/
  shown : ∀ strVals i t, fi.paramTypes[i]? = some t →
    (formatParams fi.paramTypes (sixOf regs) fi.hasThis strVals)[i]? =
      some (shownFor regs t (strVals[i]?.getD [])
        ((fi.paramTypes.take i).countP fun u => isFpParam u = true) (fi.registerOf i))
  /-- There are strings for character pointers in a register only. -/
  filled : ∀ i str, (resolveStrs mem (sixOf regs) fi)[i]? = some str → str ≠ [] →
    ∃ t r, fi.paramTypes[i]? = some t ∧ isCharPtr t ∧ fi.registerOf i = some r ∧
      str = readProcMemStr mem (regs r) 256
  /-- With these strings, each parameter is shown by its type and its own register. -/
  own : ∀ i t r, fi.paramTypes[i]? = some t → fi.registerOf i = some r →
    (formatParams fi.paramTypes (sixOf regs) fi.hasThis (resolveStrs mem (sixOf regs) fi))[i]? =
      some (shownArg mem (regs r) t)
  distinct : ∀ i j r, fi.registerOf i = some r → fi.registerOf j = some r → i = j
  /-- Neither loop reads another register, or anything behind the registers. -/
  storedReads : ∃ reads : List (List ℕ),
    entryWalk mem regs fi.paramTypes (fi.firstRegister false) =
      (resolveStrs mem (sixOf regs) fi).zip reads ∧
    ∀ i l, reads[i]? = some l → ∀ n ∈ l, n < 6 ∧ (fi.registerOf i).map Fin.val = some n
  shownReads : ∀ strVals, ∃ reads : List (List ℕ),
    formatWalk regs fi.paramTypes strVals (fi.firstRegister false) 0 =
      (formatParams fi.paramTypes (sixOf regs) fi.hasThis strVals).zip reads ∧
    ∀ i l, reads[i]? = some l → ∀ n ∈ l, n < 6 ∧ (fi.registerOf i).map Fin.val = some n

section

variable {fi : FuncInfo} {mem : ProcMem} {regs : ℕ → Word}

/-- What is read for a parameter is read from its register. -/
theorem FuncInfo.reads_of_registerOf {i n : ℕ} (h : (fi.registerOf i).map Fin.val = some n) :
    n < 6 ∧ (fi.registerOf i).map Fin.val = some n := by
  obtain ⟨r, -, hr⟩ := Option.map_eq_some_iff.1 h
  exact ⟨hr ▸ r.isLt, h⟩

/-- The strings that the callback stores. -/
theorem getElem?_resolveStrs {i : ℕ} {t : Text} (ht : fi.paramTypes[i]? = some t) :
    (resolveStrs mem (sixOf regs) fi)[i]? = some (storedFor mem regs t (fi.registerOf i)) := by
  have hstr := (@entryRead_registerOf mem regs fi i t ht).1
  rw [resolveStrs, ← map_fst_entryWalk, List.getElem?_map, getElem?_entryWalk, ht]
  exact congrArg some hstr

/-- The texts that `format_params` returns. -/
theorem getElem?_formatParams (strVals : List Text) {i : ℕ} {t : Text}
    (ht : fi.paramTypes[i]? = some t) :
    (formatParams fi.paramTypes (sixOf regs) fi.hasThis strVals)[i]? =
      some (shownFor regs t (strVals[i]?.getD [])
        ((fi.paramTypes.take i).countP fun u => isFpParam u = true) (fi.registerOf i)) := by
  have hstr := (@formatRead_registerOf regs fi i
    (0 + (fi.paramTypes.take i).countP fun u => isFpParam u = true) t (strVals[i]?.getD []) ht).1
  rw [formatParams, ← map_fst_formatWalk, List.getElem?_map, getElem?_formatWalk, ht]
  rw [Nat.zero_add] at hstr
  rw [Option.map_some, Option.map_some, Nat.zero_add]
  exact congrArg some hstr

end

/-- **The two walks agree** on the registers of the parameters, and read no others. -/
theorem FuncInfo.walksAgree (fi : FuncInfo) (mem : ProcMem) (regs : ℕ → Word) :
    fi.WalksAgree mem regs where
  strings := by
    rw [resolveStrs, ← map_fst_entryWalk, List.length_map, length_entryWalk]
  texts strVals := length_formatParams
  stored i t ht := getElem?_resolveStrs ht
  shown strVals i t ht := getElem?_formatParams strVals ht
  filled i str hstr hne := by
    obtain ⟨t, ht⟩ : ∃ t, fi.paramTypes[i]? = some t := by
      rw [resolveStrs, ← map_fst_entryWalk, List.getElem?_map, getElem?_entryWalk] at hstr
      obtain ⟨x, hx, -⟩ := Option.map_eq_some_iff.1 hstr
      obtain ⟨t, ht, -⟩ := Option.map_eq_some_iff.1 hx
      exact ⟨t, ht⟩
    rw [getElem?_resolveStrs ht] at hstr
    obtain rfl := Option.some.inj hstr
    cases hr : fi.registerOf i with
    | none =>
      rw [hr] at hne
      exact absurd rfl hne
    | some r =>
      rw [hr, storedFor] at hne
      split_ifs at hne with hchar
      · exact ⟨t, r, ht, hchar.1, rfl, if_pos hchar⟩
      · exact absurd rfl hne
  own i t r ht hr := by
    rw [getElem?_formatParams _ ht, getElem?_resolveStrs ht, hr]
    rfl
  distinct i j r := registerOf_inj
  storedReads := by
    refine ⟨_, List.zip_of_prod map_fst_entryWalk rfl, fun i l hl n hn => ?_⟩
    rw [List.getElem?_map, getElem?_entryWalk] at hl
    obtain ⟨x, hx, rfl⟩ := Option.map_eq_some_iff.1 hl
    obtain ⟨t, ht, rfl⟩ := Option.map_eq_some_iff.1 hx
    exact reads_of_registerOf ((entryRead_registerOf ht).2 n hn)
  shownReads strVals := by
    refine ⟨_, List.zip_of_prod map_fst_formatWalk rfl, fun i l hl n hn => ?_⟩
    rw [List.getElem?_map, getElem?_formatWalk] at hl
    obtain ⟨x, hx, rfl⟩ := Option.map_eq_some_iff.1 hl
    obtain ⟨t, ht, rfl⟩ := Option.map_eq_some_iff.1 hx
    exact reads_of_registerOf ((formatRead_registerOf ht).2 n hn)

end Uatu
