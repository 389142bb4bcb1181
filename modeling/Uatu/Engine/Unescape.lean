import Uatu.Engine.CharPointers

/-!
# Reading escaped strings

`read_proc_mem_str` escapes the bytes before the first zero. What it returns is printable, the bytes
can be read back from it, and in quotes it ends where it should (`readProcMemStr_readable`).
-/

namespace Uatu

open PrefixCode

/-! ## One byte -/

/-- Printable ASCII. -/
def Printable (a : Char) : Prop := 0x20 ≤ a.toNat ∧ a.toNat ≤ 0x7e

instance (a : Char) : Decidable (Printable a) := inferInstanceAs (Decidable (_ ∧ _))

theorem printable_digitChar : ∀ n < 16, Printable (Nat.digitChar n) := by decide

theorem digitChar_ne : ∀ n < 16, Nat.digitChar n ≠ '"' ∧ Nat.digitChar n ≠ '\\' := by decide

section EscapedAs

variable {c : BitVec 8} {e : Text}

theorem EscapedAs.printable (h : EscapedAs c e) : ∀ a ∈ e, Printable a := by
  cases h with
  | quote =>
    rw [List.forall_mem_cons, List.forall_mem_singleton]
    exact ⟨by decide, by decide⟩
  | backslash =>
    rw [List.forall_mem_cons, List.forall_mem_singleton]
    exact ⟨by decide, by decide⟩
  | literal _ _ hlo hhi =>
    intro a ha
    rw [List.mem_singleton.1 ha]
    exact ⟨hlo, hhi⟩
  | hex hm hn =>
    simp only [List.forall_mem_cons]
    exact ⟨by decide, by decide, printable_digitChar _ hm, printable_digitChar _ hn, nofun⟩

/-- The only quote is in the form of a quote, behind its backslash. -/
theorem EscapedAs.eq_quote (h : EscapedAs c e) {s t : Text} (he : e = s ++ '"' :: t) :
    c = 0x22 ∧ s = ['\\'] ∧ t = [] := by
  have hmem : '"' ∈ e := by
    rw [he]
    exact List.mem_append_right _ (List.mem_cons_self ..)
  cases h with
  | quote =>
    cases s with
    | nil => cases he
    | cons a s =>
      obtain ⟨rfl, hs⟩ := List.cons_eq_cons.1 he
      cases s with
      | nil => exact ⟨rfl, rfl, (List.cons_eq_cons.1 hs).2.symm⟩
      | cons b s => simp at hs
  | backslash =>
    exact absurd hmem (by decide)
  | literal hquote => exact absurd (List.mem_singleton.1 hmem).symm hquote
  | hex hm hn =>
    have hm' := (digitChar_ne _ hm).1.symm
    have hn' := (digitChar_ne _ hn).1.symm
    simp [hm', hn'] at hmem

end EscapedAs

/-! ## Texts -/

/-- The bytes that a text of escapes stands for. -/
def unescape : Text → List (BitVec 8)
  | '\\' :: 'x' :: a :: b :: s => .ofNat 8 (16 * hexDigit a + hexDigit b) :: unescape s
  | '\\' :: a :: s => charByte a :: unescape s
  | a :: s => charByte a :: unescape s
  | [] => []

/-- What stands before the next quote without a backslash, and what follows that quote. -/
def closing : Text → Option (Text × Text)
  | '\\' :: a :: s => (closing s).map (Prod.map (['\\', a] ++ ·) id)
  | '"' :: s => some ([], s)
  | a :: s => (closing s).map (Prod.map ([a] ++ ·) id)
  | [] => none

/-- A text in quotes, and what follows it. -/
def unquote : Text → Option (Text × Text)
  | '"' :: s => closing s
  | _ => none

theorem unescape_cons {a : Char} (h : a ≠ '\\') (s : Text) :
    unescape (a :: s) = charByte a :: unescape s := by
  rw [unescape.eq_3]
  · rintro b c s' rfl
    exact absurd rfl h
  · rintro b s' rfl
    exact absurd rfl h

theorem closing_cons {a : Char} (hquote : a ≠ '"') (hbackslash : a ≠ '\\') (s : Text) :
    closing (a :: s) = (closing s).map (Prod.map ([a] ++ ·) id) := by
  rw [closing.eq_3]
  · rintro b s' rfl
    exact absurd rfl hbackslash
  · exact hquote

theorem EscapedAs.unescape {c : BitVec 8} {e : Text} (h : EscapedAs c e) (s : Text) :
    unescape (e ++ s) = c :: Uatu.unescape s := by
  cases h with
  | quote => rfl
  | backslash => rfl
  | literal hquote hbackslash => exact unescape_cons hbackslash s
  | hex hm hn =>
    change Uatu.unescape ('\\' :: 'x' :: _ :: _ :: s) = _
    rw [unescape.eq_1, hexDigit_digitChar _ hm, hexDigit_digitChar _ hn]

theorem EscapedAs.closing {c : BitVec 8} {e : Text} (h : EscapedAs c e) (s : Text) :
    closing (e ++ s) = (Uatu.closing s).map (Prod.map (e ++ ·) id) := by
  cases h with
  | quote => rfl
  | backslash => rfl
  | literal hquote hbackslash => exact closing_cons hquote hbackslash s
  | hex hm hn =>
    change Uatu.closing ('\\' :: 'x' :: _ :: _ :: s) = _
    rw [closing.eq_1, closing_cons (digitChar_ne _ hm).1 (digitChar_ne _ hm).2,
      closing_cons (digitChar_ne _ hn).1 (digitChar_ne _ hn).2, Option.map_map, Option.map_map]
    rfl

/-! ## Strings -/

/-- The bytes before the first zero. Nothing is read at the null pointer. -/
def ProcMem.stringAt (mem : ProcMem) (addr : Addr) (maxLen : ℕ) : List (BitVec 8) :=
  if addr = 0 then [] else (mem.pread addr maxLen).takeWhile (· ≠ 0)

theorem readProcMemStr_eq (mem : ProcMem) (addr : Addr) (maxLen : ℕ) :
    readProcMemStr mem addr maxLen = (mem.stringAt addr maxLen).flatMap escape := by
  rw [readProcMemStr, ProcMem.stringAt]
  split_ifs <;> rfl

/-- A text tells these bytes, and its end can be seen in quotes. -/
structure Readable (bytes : List (BitVec 8)) (text : Text) : Prop where
  printable : ∀ a ∈ text, Printable a
  /-- A quote comes with the backslash that escapes it, and stands for itself. -/
  quotes : ∀ s t, text = s ++ '"' :: t →
    ∃ before after, bytes = before ++ 0x22 :: after ∧
      s = before.flatMap escape ++ ['\\'] ∧ t = after.flatMap escape
  decoded : unescape text = bytes
  closed : ∀ rest, unquote (quoted text ++ rest) = some (text, rest)

theorem readable_flatMap_escape (bytes : List (BitVec 8)) :
    Readable bytes (bytes.flatMap escape) where
  printable a ha := by
    obtain ⟨c, -, ha⟩ := List.mem_flatMap.1 ha
    exact (escapedAs_escape c).printable a ha
  quotes s t h := by
    obtain ⟨before, after, hbytes, hs, ht⟩ :=
      exists_of_flatMap_eq_append (fun c _ _ => (escapedAs_escape c).eq_quote) h
    exact ⟨before, after, hbytes, hs, ht⟩
  decoded := decode_flatMap rfl (fun c s => (escapedAs_escape c).unescape s) bytes
  closed rest := by
    have hquoted : unquote (quoted (bytes.flatMap escape) ++ rest) =
        closing (bytes.flatMap escape ++ '"' :: rest) := by
      simp only [quoted, List.append_assoc]
      rfl
    rw [hquoted, read_flatMap fun c s => (escapedAs_escape c).closing s]
    change some (bytes.flatMap escape ++ [], rest) = _
    rw [List.append_nil]

/-- **What is read at a pointer can be read back**: no two strings are shown alike, and none closes
its quotes early. -/
theorem readProcMemStr_readable (mem : ProcMem) (addr : Addr) (maxLen : ℕ) :
    Readable (mem.stringAt addr maxLen) (readProcMemStr mem addr maxLen) ∧
    ∀ mem' addr' maxLen', readProcMemStr mem' addr' maxLen' = readProcMemStr mem addr maxLen →
      mem'.stringAt addr' maxLen' = mem.stringAt addr maxLen := by
  have hreadable : ∀ mem addr maxLen,
      Readable (ProcMem.stringAt mem addr maxLen) (readProcMemStr mem addr maxLen) := by
    intro mem addr maxLen
    rw [readProcMemStr_eq]
    exact readable_flatMap_escape _
  refine ⟨hreadable mem addr maxLen, fun mem' addr' maxLen' h => ?_⟩
  rw [← (hreadable mem addr maxLen).decoded, ← h, (hreadable mem' addr' maxLen').decoded]

end Uatu
