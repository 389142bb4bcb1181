import Uatu.Engine.Events
import Uatu.Foundations.Hexadecimal
import Uatu.Foundations.Readers

/-!
# Reading parameters back

The parameters of an event are printed between brackets, with commas between them, and strings may
have commas and brackets in them. Whatever `format_params` makes of a call, each parameter is a
plain text or a string in quotes (`paramTexts_shown`), so the list can be read back
(`intercalate_shown_injective`).
-/

namespace Uatu

open Readers

/-! ## Plain texts -/

/-- Nothing in the text has a meaning in a list. -/
def Plain (s : Text) : Prop := ∀ c ∈ s, c ∉ [',', ']', '"', ' ', '\n']

instance : DecidablePred Plain := fun s => List.decidableBAll _ s

theorem Plain.append {s t : Text} (hs : Plain s) (ht : Plain t) : Plain (s ++ t) :=
  List.forall_mem_append.2 ⟨hs, ht⟩

theorem plain_of_isHexDigit {s : Text} (h : ∀ c ∈ s, Char.isHexDigit c = true) : Plain s := by
  intro c hc hmem
  have hnot : [',', ']', '"', ' ', '\n'].all (! ·.isHexDigit) = true := by decide
  have hdigit := List.all_eq_true.1 hnot c hmem
  simp [h c hc] at hdigit

theorem isHexDigit_of_mem_decimal {n : ℕ} {c : Char} (h : c ∈ decimal n) : c.isHexDigit = true := by
  rw [Char.isHexDigit, isDigit_of_mem_decimal h]
  rfl

theorem plain_decimal (n : ℕ) : Plain (decimal n) :=
  plain_of_isHexDigit fun _ => isHexDigit_of_mem_decimal

theorem plain_hex (v : Word) : Plain (hex v) :=
  plain_of_isHexDigit fun _ => Hexadecimal.isHexDigit_of_mem_toDigits

theorem plain_signedDecimal (i : ℤ) : Plain (signedDecimal i) := by
  rw [signedDecimal]
  split_ifs
  · exact Plain.append (s := ['-']) (by decide) (plain_decimal _)
  · exact plain_decimal _

/-! ## Parameters -/

/-- What is shown for a parameter. -/
inductive ShownParam
  | plain (s : {s : Text // Plain s})
  | string (bytes : List (BitVec 8))

namespace ShownParam

def text : ShownParam → Text
  | .plain s => s
  | .string bytes => stringText bytes

/-- Read a parameter behind the blank in front of it. -/
def read : Reader ShownParam Char
  | ' ' :: s =>
    match unquote s with
    | some (str, rest) => some (.string (unescape str), rest)
    | none =>
      let t := s.takeWhile fun c => c ∉ [',', ']']
      if h : Plain t then some (.plain ⟨t, h⟩, s.drop t.length) else none
  | _ => none

theorem read_text (param : ShownParam) {x : Char} (hx : x = ',' ∨ x = ']') (s : Text) :
    read (' ' :: param.text ++ x :: s) = some (param, x :: s) := by
  have hx' : x ∈ [',', ']'] := by simpa using hx
  cases param with
  | plain t =>
    have hstop : ∀ c ∈ t.1, decide (c ∉ [',', ']']) = true := by
      intro c hc
      have hplain := t.2 c hc
      simp only [List.mem_cons, not_or] at hplain
      simp [hplain]
    have hquote : unquote (t.1 ++ x :: s) = none := by
      refine unquote.eq_2 _ fun u hu => ?_
      obtain ⟨_ | ⟨c, t⟩, ht⟩ := t
      · obtain rfl := (List.cons.inj hu).1
        exact absurd hx' (by decide)
      · obtain rfl := (List.cons.inj hu).1
        exact ht '"' (List.mem_cons_self ..) (by decide)
    have htake : (t.1 ++ x :: s).takeWhile (fun c => c ∉ [',', ']']) = t.1 := by
      rw [List.takeWhile_append_of_pos hstop, List.takeWhile_cons_of_neg (by simp [hx']),
        List.append_nil]
    simp only [text, List.cons_append, read, hquote, htake]
    rw [dif_pos t.2, List.drop_left]
  | string bytes =>
    have hreadable := readable_flatMap_escape bytes
    simp only [text, stringText, List.cons_append, read, hreadable.closed, hreadable.decoded]

theorem newline_not_mem_text (param : ShownParam) : '\n' ∉ param.text := by
  cases param with
  | plain s => exact fun h => s.2 _ h (by decide)
  | string bytes =>
    have hprintable := (readable_flatMap_escape bytes).printable
    rw [text, stringText, quoted]
    intro h
    simp only [List.mem_append] at h
    rcases h with (h | h) | h
    · exact absurd h (by decide)
    · exact absurd (hprintable _ h) (by decide)
    · exact absurd h (by decide)

end ShownParam

theorem intercalate_cons (sep a : Text) (l : List Text) :
    sep.intercalate (a :: l) = a ++ l.flatMap (sep ++ ·) := by
  induction l generalizing a with
  | nil => simp
  | cons b l ih =>
    rw [List.intercalate_cons_cons, ih, List.flatMap_cons, List.append_assoc, List.append_assoc]

/-- A list of parameters is written as `Readers` writes one, but for the blank in front. -/
theorem printList_eq {params : List ShownParam} (h : params ≠ []) :
    printList (fun param => ' ' :: ShownParam.text param) ',' ']' params =
      ' ' :: ", ".toList.intercalate (params.map ShownParam.text) ++ [']'] := by
  have htail : ∀ l : List ShownParam,
      printTail (fun param => ' ' :: ShownParam.text param) ',' ']' l =
        (l.map ShownParam.text).flatMap (", ".toList ++ ·) ++ [']'] := by
    intro l
    induction l with
    | nil => rfl
    | cons a l ih =>
      rw [printTail, ih, List.map_cons, List.flatMap_cons, List.append_assoc]
      rfl
  obtain ⟨param, params, rfl⟩ := List.exists_cons_of_ne_nil h
  rw [printList, htail, List.map_cons, intercalate_cons]
  simp

theorem intercalate_shown_injective {params params' : List ShownParam} (h : params ≠ [])
    (h' : params' ≠ []) (heq : ", ".toList.intercalate (params.map ShownParam.text) =
      ", ".toList.intercalate (params'.map ShownParam.text)) : params = params' := by
  have hread : ∀ l : List ShownParam, readList ShownParam.read ',' ']'
      (printList (fun param => ' ' :: ShownParam.text param) ',' ']' l ++ []) = some (l, []) :=
    fun l => readList_printList (by decide) (fun param x s hx => param.read_text hx s)
      (fun param s hs => absurd (List.cons.inj hs).1 (by decide))
      (fun _ => List.cons_ne_nil _ _) l []
  have hprint := hread params
  rw [printList_eq h, heq, ← printList_eq h', hread params'] at hprint
  exact (Prod.mk.inj (Option.some.inj hprint)).1.symm

theorem newline_not_mem_intercalate (params : List ShownParam) :
    '\n' ∉ ", ".toList.intercalate (params.map ShownParam.text) := by
  cases params with
  | nil => exact List.not_mem_nil
  | cons param params =>
    rw [List.map_cons, intercalate_cons, List.mem_append, List.mem_flatMap, not_or]
    refine ⟨param.newline_not_mem_text, ?_⟩
    rintro ⟨s, hs, h⟩
    obtain ⟨param, -, rfl⟩ := List.mem_map.1 hs
    rcases List.mem_append.1 h with h | h
    · exact absurd h (by decide)
    · exact param.newline_not_mem_text h

/-! ## The parameters of a call -/

theorem plain_addrText (v : Word) : Plain (addrText v) :=
  Plain.append (Plain.append (by decide) (plain_hex v)) (by decide)

/-- The text of a value is plain, or an address in quotes. -/
theorem plain_or_eq_quoted (v : Word) (type : Text) :
    Plain (formatParamVal v type) ∨ formatParamVal v type = quoted (addrText v) := by
  rw [formatParamVal_eq]
  cases shape (stripCv type) with
  | bool =>
    rw [Shape.text]
    split_ifs <;> exact .inl (by decide)
  | signed width => exact .inl (plain_signedDecimal _)
  | pointer chars =>
    rw [Shape.text]
    split_ifs
    · exact .inl (by decide)
    · right
      simp [quoted, addrText]
    · exact .inl (Plain.append (by decide) (plain_hex v))
  | reference => exact .inl (Plain.append (by decide) (plain_hex v))
  | unsigned => exact .inl (plain_decimal _)

theorem exists_text_eq_formatParamVal (v : Word) (type : Text) :
    ∃ param : ShownParam, param.text = formatParamVal v type := by
  rcases plain_or_eq_quoted v type with h | h
  · exact ⟨.plain ⟨_, h⟩, rfl⟩
  · exact ⟨.string (addrBytes v), (stringText_addrBytes v).trans h.symm⟩

/-- There are no blanks in a value. -/
theorem blank_not_mem_formatIntVal (v : Word) (type : Text) :
    ' ' ∉ formatIntVal v type ∧ '\n' ∉ formatIntVal v type := by
  have hplain : ∀ {s : Text}, Plain s → ' ' ∉ s ∧ '\n' ∉ s := fun {s} hs =>
    ⟨fun hc => hs _ hc (by decide), fun hc => hs _ hc (by decide)⟩
  rw [formatIntVal]
  rcases plain_or_eq_quoted v type with h | h
  · exact hplain h
  · obtain ⟨hblank, hnewline⟩ := hplain (plain_addrText v)
    rw [h, quoted]
    simp [hblank, hnewline]

/-- **The text of a parameter** is plain, or a string in quotes. -/
theorem paramTexts_shown : ParamTexts fun s => s ∈ Set.range ShownParam.text where
  xmm k := by
    have hplain : Plain (xmmText k) :=
      Plain.append (Plain.append (by decide) (plain_decimal k)) (by decide)
    exact ⟨.plain ⟨_, hplain⟩, rfl⟩
  value v type := exists_text_eq_formatParamVal v type
  string bytes := ⟨.string bytes, rfl⟩
  unknown := ⟨.plain ⟨"?".toList, by decide⟩, rfl⟩

end Uatu
