import Uatu.Engine.Arguments
import Uatu.Foundations.PrefixCode

/-!
# What is read at a character pointer

`read_proc_mem_str` returns the empty string when nothing can be read and when there is an empty
string, and in both cases `format_params` falls back to the address, in the same quotes that it puts
around strings. `tells_iff` says what the text still tells.
-/

namespace Uatu

open PrefixCode

/-! ## Escapes -/

section Escape

/-- The digits of a byte. -/
theorem leftpad_toDigits {n : ℕ} (h : n < 256) :
    (Nat.toDigits 16 n).leftpad 2 '0' = [Nat.digitChar (n / 16), Nat.digitChar (n % 16)] := by
  rw [Nat.toDigits_eq_if (by decide)]
  split_ifs with hn
  · rw [Nat.div_eq_of_lt hn, Nat.mod_eq_of_lt hn]
    rfl
  · rw [Nat.toDigits_of_lt_base (by omega)]
    rfl

/-- The value of a hexadecimal digit. -/
def hexDigit (a : Char) : ℕ := if a.isDigit then a.toNat - '0'.toNat else a.toNat - 'a'.toNat + 10

theorem hexDigit_digitChar : ∀ n < 16, hexDigit (Nat.digitChar n) = n := by decide

/-- The byte that a text of escapes begins with. -/
def firstByte : Text → BitVec 8
  | '\\' :: 'x' :: a :: b :: _ => .ofNat 8 (16 * hexDigit a + hexDigit b)
  | '\\' :: a :: _ => .ofNat 8 a.toNat
  | a :: _ => .ofNat 8 a.toNat
  | [] => 0

theorem firstByte_cons {a : Char} (h : a ≠ '\\') (s : Text) :
    firstByte (a :: s) = .ofNat 8 a.toNat := by
  rw [firstByte.eq_3]
  · rintro b c s' rfl
    exact absurd rfl h
  · rintro b s' rfl
    exact absurd rfl h

theorem toNat_charOfNat {n : ℕ} (h : n < 0x7f) : (Char.ofNat n).toNat = n := by
  have hvalid : n.isValidChar := .inl (by omega)
  rw [Char.ofNat, dif_pos hvalid]
  rfl

/-- The byte of an ASCII character. -/
def charByte (a : Char) : BitVec 8 := .ofNat 8 a.toNat

/-- The ways to show a byte. -/
inductive EscapedAs : BitVec 8 → Text → Prop
  | quote : EscapedAs 0x22 ['\\', '"']
  | backslash : EscapedAs 0x5c ['\\', '\\']
  | literal {a : Char} (hquote : a ≠ '"') (hbackslash : a ≠ '\\') (hlo : 0x20 ≤ a.toNat)
      (hhi : a.toNat ≤ 0x7e) : EscapedAs (charByte a) [a]
  | hex {m n : ℕ} (hm : m < 16) (hn : n < 16) :
      EscapedAs (.ofNat 8 (16 * m + n)) ['\\', 'x', Nat.digitChar m, Nat.digitChar n]

theorem escapedAs_escape (c : BitVec 8) : EscapedAs c (escape c) := by
  rw [escape]
  split_ifs with hquote hbackslash hprint
  · rw [hquote]
    exact .quote
  · rw [hbackslash]
    exact .backslash
  · have htoNat := toNat_charOfNat (BitVec.lt_def.1 hprint.2)
    have hc : charByte (Char.ofNat c.toNat) = c := by
      rw [charByte, htoNat, BitVec.ofNat_toNat, BitVec.setWidth_eq]
    have hchar : ∀ a, Char.ofNat c.toNat = a → c = charByte a := fun a ha => ha ▸ hc.symm
    have hlo : 0x20 ≤ c.toNat := BitVec.le_def.1 hprint.1
    have hhi : c.toNat < 0x7f := BitVec.lt_def.1 hprint.2
    have hliteral := EscapedAs.literal (a := Char.ofNat c.toNat)
      (fun ha => hquote (hchar _ ha)) (fun ha => hbackslash (hchar _ ha)) (by omega) (by omega)
    rwa [hc] at hliteral
  · rw [leftpad_toDigits c.isLt]
    have hhex := EscapedAs.hex (m := c.toNat / 16) (n := c.toNat % 16)
      (by have := c.isLt; omega) (Nat.mod_lt _ (by decide))
    rwa [Nat.div_add_mod, BitVec.ofNat_toNat, BitVec.setWidth_eq] at hhex

theorem EscapedAs.firstByte {c : BitVec 8} {e : Text} (h : EscapedAs c e) (s : Text) :
    firstByte (e ++ s) = c := by
  cases h with
  | quote => rfl
  | backslash => rfl
  | literal hquote hbackslash => exact firstByte_cons hbackslash s
  | hex hm hn =>
    change Uatu.firstByte ('\\' :: 'x' :: _ :: _ :: s) = _
    rw [firstByte.eq_1, hexDigit_digitChar _ hm, hexDigit_digitChar _ hn]

/-- Every byte can be read from the front of its escape. -/
theorem firstByte_escape (c : BitVec 8) (s : Text) : firstByte (escape c ++ s) = c :=
  (escapedAs_escape c).firstByte s

theorem escape_ne_nil (c : BitVec 8) : escape c ≠ [] := by
  rw [escape]
  split_ifs <;> exact List.cons_ne_nil _ _

/-- Bytes can be read back from their escapes. -/
theorem flatMap_escape_injective :
    Function.Injective fun s : List (BitVec 8) => s.flatMap escape :=
  (prefixFree_of_read firstByte_escape).flatMap_injective escape_ne_nil

/-- The characters that are not escaped. -/
def Literal (a : Char) : Prop := charByte a ≠ 0 ∧ escape (charByte a) = [a]

instance (a : Char) : Decidable (Literal a) := inferInstanceAs (Decidable (_ ∧ _))

theorem literal_of_mem_hex {v : Word} {a : Char} (h : a ∈ hex v) : Literal a := by
  have hdigit : ∀ n < 16, Literal (Nat.digitChar n) := by decide
  have hall : ∀ n : ℕ, ∀ a ∈ Nat.toDigits 16 n, Literal a := by
    intro n
    induction n using Nat.strong_induction_on with
    | h n ih =>
      intro a ha
      rw [Nat.toDigits_eq_if (by decide)] at ha
      split_ifs at ha with hn
      · rw [List.mem_singleton.1 ha]
        exact hdigit n hn
      · rcases List.mem_append.1 ha with ha | ha
        · exact ih (n / 16) (by omega) a ha
        · rw [List.mem_singleton.1 ha]
          exact hdigit _ (Nat.mod_lt _ (by decide))
  exact hall _ a h

theorem flatMap_escape_charByte {s : Text} (h : ∀ a ∈ s, Literal a) :
    (s.map charByte).flatMap escape = s := by
  induction s with
  | nil => rfl
  | cons a s ih =>
    rw [List.map_cons, List.flatMap_cons, (h a (List.mem_cons_self ..)).2,
      ih fun b hb => h b (List.mem_cons_of_mem a hb), List.singleton_append]

end Escape

/-! ## Texts of character pointers -/

/-- What is shown for a string. -/
def stringText (s : List (BitVec 8)) : Text := quoted (s.flatMap escape)

theorem stringText_injective : Function.Injective stringText := by
  intro s s' h
  exact flatMap_escape_injective (List.append_cancel_left (List.append_cancel_right h))

/-- What stands between the quotes for an address. -/
def addrText (v : Word) : Text := "<0x".toList ++ hex v ++ ">".toList

section Shown

variable {mem : ProcMem} {p : Word} {type : Text}

theorem formatParamVal_charPtr (h : isCharPtr type) :
    formatParamVal p type = if p = 0 then "nullptr".toList else quoted (addrText p) := by
  have hshape : ∀ s ∈ ["char*".toList, "char *".toList], shape s = .pointer true := by decide
  rw [formatParamVal_eq, hshape _ (of_decide_eq_true h), Shape.text,
    if_pos (show true = true from rfl)]
  split_ifs
  · rfl
  · simp only [quoted, addrText, List.append_assoc]
    rfl

theorem isFpParam_of_charPtr (h : isCharPtr type) : isFpParam type = false := by
  have hnames : ∀ s ∈ ["char*".toList, "char *".toList],
      s ∉ ["float".toList, "double".toList, "long double".toList] := by decide
  exact decide_eq_false (hnames _ (of_decide_eq_true h))

/-- The text of a pointer: an empty string has none of its own. -/
theorem shownArg_charPtr (h : isCharPtr type) :
    shownArg mem p type =
      if p = 0 then "nullptr".toList
      else if (mem.pread p 256).takeWhile (· ≠ 0) = [] then quoted (addrText p)
      else stringText ((mem.pread p 256).takeWhile (· ≠ 0)) := by
  rw [shownArg, formatParamVal_charPtr h, readProcMemStr]
  by_cases hp : p = 0
  · simp [hp]
  · simp only [h, hp, ne_eq, not_false_eq_true, and_self, if_true, if_false]
    cases (mem.pread p 256).takeWhile (· ≠ 0) with
    | nil => rfl
    | cons c s =>
      rw [if_pos, if_neg (List.cons_ne_nil c s)]
      · rfl
      · rw [List.flatMap_cons]
        exact fun hnil => escape_ne_nil c (List.append_eq_nil_iff.1 hnil).1

end Shown

/-! ## What the text tells -/

/-- The parameter at this position is a character pointer, and is read from this register. -/
structure FuncInfo.CharParam (fi : FuncInfo) (i : ℕ) (r : Fin 6) : Prop where
  type : ∃ type, fi.paramTypes[i]? = some type ∧ isCharPtr type
  register : r.val =
    fi.firstRegister false + (fi.paramTypes.take i).countP fun t => isFpParam t = false

/-- There is a string of fewer than 256 bytes at the address, and it can be read up to its end. -/
structure ProcMem.HasString (mem : ProcMem) (p : Addr) (s : List (BitVec 8)) : Prop where
  nonnull : p ≠ 0
  nonzero : ∀ c ∈ s, c ≠ 0
  bytes : ∃ rest, mem.pread p 256 = s ++ 0 :: rest

/-- What is shown for the parameter at a position. -/
def FuncInfo.paramAt (fi : FuncInfo) (i : ℕ) (raw : RawEvent) (idx : ℕ) (d : Delivery) :
    Option Text :=
  (Watch.exitEvent raw idx fi (some (Watch.entryData d idx fi))).params[i]?

/-- The text of a character pointer tells what was there. -/
structure FuncInfo.Tells (fi : FuncInfo) (i : ℕ) (r : Fin 6) (d : Delivery) : Prop where
  /-- A string is shown as it is. -/
  string : ∀ s, d.2.HasString (d.1.args r) s → ∀ raw idx,
    fi.paramAt i raw idx d = some (stringText s)
  /-- It is shown as no other string would be. -/
  only : ∀ s s', d.2.HasString (d.1.args r) s → ∀ raw idx,
    fi.paramAt i raw idx d = some (stringText s') → s' = s
  /-- What cannot be read is shown as no string is. -/
  unreadable : d.2.pread (d.1.args r) 256 = [] → ∀ d' s, d'.2.HasString (d'.1.args r) s →
    ∀ raw idx raw' idx', fi.paramAt i raw idx d ≠ fi.paramAt i raw' idx' d'

/-- The pointer is null, or there is a byte at it which can be read and is not zero. -/
def ProcMem.Tellable (mem : ProcMem) (p : Addr) : Prop :=
  p = 0 ∨ ∃ c rest, mem.pread p 256 = c :: rest ∧ c ≠ 0

theorem ProcMem.HasString.takeWhile {mem : ProcMem} {p : Addr} {s : List (BitVec 8)}
    (h : mem.HasString p s) : (mem.pread p 256).takeWhile (· ≠ 0) = s := by
  obtain ⟨rest, hrest⟩ := h.bytes
  rw [hrest, List.takeWhile_append_of_pos fun c hc => decide_eq_true (h.nonzero c hc)]
  exact List.append_nil s

/-- Memory that holds these bytes and a zero, wherever it is read. -/
def ProcMem.holding (s : List (BitVec 8)) : ProcMem where
  pread _ n := (s ++ [0]).take n
  pread_le _ _ := List.length_take_le ..

theorem ProcMem.hasString_holding {s : List (BitVec 8)} {p : Addr} (hp : p ≠ 0)
    (hs : ∀ c ∈ s, c ≠ 0) (hlen : s.length < 256) : (ProcMem.holding s).HasString p s := by
  refine ⟨hp, hs, [], List.take_of_length_le ?_⟩
  rw [List.length_append, List.length_singleton]
  omega

/-- The bytes that imitate an address. -/
def addrBytes (v : Word) : List (BitVec 8) := (addrText v).map charByte

theorem literal_of_mem_addrText {v : Word} {a : Char} (h : a ∈ addrText v) : Literal a := by
  have hmarks : "<0x".toList.all (fun a => decide (Literal a)) ∧
      ">".toList.all fun a => decide (Literal a) := by decide
  rcases List.mem_append.1 h with h | h
  · rcases List.mem_append.1 h with h | h
    · exact of_decide_eq_true (List.all_eq_true.1 hmarks.1 a h)
    · exact literal_of_mem_hex h
  · exact of_decide_eq_true (List.all_eq_true.1 hmarks.2 a h)

theorem stringText_addrBytes (v : Word) : stringText (addrBytes v) = quoted (addrText v) := by
  rw [stringText, addrBytes, flatMap_escape_charByte fun a ha => literal_of_mem_addrText ha]

theorem hasString_addrBytes {p : Addr} (v : Word) (hp : p ≠ 0) :
    (ProcMem.holding (addrBytes v)).HasString p (addrBytes v) := by
  apply ProcMem.hasString_holding hp
  · intro c hc
    obtain ⟨a, ha, rfl⟩ := List.mem_map.1 hc
    exact (literal_of_mem_addrText ha).1
  · have hhex : (hex v).length ≤ 16 := (Nat.length_toDigits_le_iff (by decide) (by decide)).2 v.isLt
    have hmarks : "<0x".toList.length = 3 ∧ ">".toList.length = 1 := by decide
    rw [addrBytes, List.length_map, addrText, List.length_append, List.length_append, hmarks.1,
      hmarks.2]
    omega

section Tells

variable {fi : FuncInfo} {i : ℕ} {r : Fin 6}

theorem FuncInfo.CharParam.paramAt (h : fi.CharParam i r) (raw : RawEvent) (idx : ℕ)
    (d : Delivery) :
    fi.paramAt i raw idx d =
      some (if d.1.args r = 0 then "nullptr".toList
        else if (d.2.pread (d.1.args r) 256).takeWhile (· ≠ 0) = [] then
          quoted (addrText (d.1.args r))
        else stringText ((d.2.pread (d.1.args r) 256).takeWhile (· ≠ 0))) := by
  obtain ⟨type, htype, hchar⟩ := h.type
  have hfp := isFpParam_of_charPtr hchar
  rw [FuncInfo.paramAt, params_exitEvent, htype, Option.map_some, hfp, ← h.register, paramText,
    if_neg (by rw [hfp]; decide), dif_pos r.isLt, shownArg_charPtr hchar]

/-- Strings are in quotes, and so is what is shown for an empty one. -/
theorem FuncInfo.CharParam.head_paramAt (h : fi.CharParam i r) {s : List (BitVec 8)}
    {d : Delivery} (hs : d.2.HasString (d.1.args r) s) (raw : RawEvent) (idx : ℕ) :
    ∃ text, fi.paramAt i raw idx d = some (quoted text) := by
  rw [h.paramAt, if_neg hs.nonnull]
  split_ifs
  · exact ⟨_, rfl⟩
  · exact ⟨_, rfl⟩

/-- A string that is not empty is shown as it is. -/
theorem FuncInfo.CharParam.paramAt_string (h : fi.CharParam i r) {s : List (BitVec 8)}
    {d : Delivery} (hs : d.2.HasString (d.1.args r) s) (hne : s ≠ []) (raw : RawEvent) (idx : ℕ) :
    fi.paramAt i raw idx d = some (stringText s) := by
  rw [h.paramAt, if_neg hs.nonnull, hs.takeWhile, if_neg hne]

/-- **The text of a character pointer tells what was there** if the pointer is null or a byte which
is not zero can be read at it, and only then. -/
theorem tells_iff (h : fi.CharParam i r) (d : Delivery) :
    fi.Tells i r d ↔ d.2.Tellable (d.1.args r) := by
  constructor
  · intro htells
    by_contra hnot
    obtain ⟨hp, hbyte⟩ := not_or.1 hnot
    cases hread : d.2.pread (d.1.args r) 256 with
    | nil =>
      -- a string that imitates the address is shown alike
      let d' : Delivery := (d.1, .holding (addrBytes (d.1.args r)))
      have hstring : d'.2.HasString (d'.1.args r) (addrBytes (d.1.args r)) :=
        hasString_addrBytes _ hp
      apply htells.unreadable hread d' _ hstring .exit 0 .exit 0
      have hne : addrBytes (d.1.args r) ≠ [] := List.cons_ne_nil _ _
      rw [h.paramAt_string hstring hne, stringText_addrBytes, h.paramAt, if_neg hp, hread,
        List.takeWhile_nil, if_pos rfl]
    | cons c rest =>
      have hzero : c = 0 := by
        by_contra hc
        exact hbyte ⟨c, rest, hread, hc⟩
      subst hzero
      -- the empty string is shown as the address
      have hstring : d.2.HasString (d.1.args r) [] := ⟨hp, nofun, rest, hread⟩
      have htext := htells.string [] hstring .exit 0
      rw [h.paramAt, if_neg hp, hstring.takeWhile, if_pos rfl] at htext
      have haddr := List.append_cancel_right (Option.some.inj htext)
      exact List.cons_ne_nil _ _ (List.append_cancel_left haddr)
  · rintro (hp | ⟨c, rest, hread, hc⟩)
    · refine ⟨fun s hs => absurd hp hs.nonnull, fun s _ hs => absurd hp hs.nonnull, ?_⟩
      intro _ d' s hs raw idx raw' idx'
      obtain ⟨text, htext⟩ := h.head_paramAt hs raw' idx'
      rw [htext, h.paramAt, if_pos hp]
      intro heq
      cases Option.some.inj heq
    · have hne : ∀ s, d.2.HasString (d.1.args r) s → s ≠ [] := by
        rintro s hs rfl
        obtain ⟨rest', hrest'⟩ := hs.bytes
        rw [hread] at hrest'
        exact hc (List.cons_eq_cons.1 hrest').1
      refine ⟨fun s hs => h.paramAt_string hs (hne s hs), fun s s' hs raw idx htext => ?_, ?_⟩
      · rw [h.paramAt_string hs (hne s hs)] at htext
        exact (stringText_injective (Option.some.inj htext)).symm
      · intro hnil
        rw [hread] at hnil
        cases hnil

end Tells

/-! ## A function of one string -/

/-- `fixtures::str_len(const char *)`. -/
def strLen : FuncInfo :=
  ⟨"fixtures::str_len".toList, "fixtures::str_len".toList, 0x1100, 0x20, ["const char*".toList],
    [], false⟩

theorem charParam_strLen : strLen.CharParam 0 0 := ⟨⟨_, rfl, by decide⟩, rfl⟩

/-- An entry with this pointer in the registers. -/
def pointerEntry (p : Addr) (mem : ProcMem) : Delivery := (.entry fun _ => p, mem)

theorem tells_hello :
    strLen.Tells 0 0 (pointerEntry 0x1000 (.holding ("hello".toList.map charByte))) :=
  (tells_iff charParam_strLen _).2 (.inr ⟨charByte 'h', _, rfl, by decide⟩)

/-- A pointer that cannot be read is shown as the string `<0x10>` is, and so is the empty one. -/
theorem not_tells_unreadable :
    let imitation := ProcMem.holding ("<0x10>".toList.map charByte)
    strLen.paramAt 0 .exit 0 (pointerEntry 0x10 .unreadable) = some "\"<0x10>\"".toList ∧
    strLen.paramAt 0 .exit 0 (pointerEntry 0x7000 imitation) = some "\"<0x10>\"".toList ∧
    strLen.paramAt 0 .exit 0 (pointerEntry 0x10 (.holding [])) = some "\"<0x10>\"".toList ∧
    ¬ strLen.Tells 0 0 (pointerEntry 0x10 .unreadable) ∧
    ¬ strLen.Tells 0 0 (pointerEntry 0x10 (.holding [])) := by
  refine ⟨by decide, by decide, by decide, fun h => ?_, fun h => ?_⟩
  · have hstring : (ProcMem.holding ("<0x10>".toList.map charByte)).HasString 0x7000
        ("<0x10>".toList.map charByte) :=
      ProcMem.hasString_holding (by decide) (by decide) (by decide)
    apply h.unreadable rfl (pointerEntry 0x7000 _) _ hstring .exit 0 .exit 0
    decide
  · have htext := h.string [] (ProcMem.hasString_holding (by decide) nofun (by decide))
      .exit 0
    revert htext
    decide

end Uatu
