import Uatu.Engine.CharPointers
import Uatu.Foundations.Readers
import Uatu.Protocol.JsonCodec

/-!
# Flat objects in JSON

A library of the kind that the codec is built on: objects whose fields have the types of the codec,
with their keys in order, and their texts without blanks. It shows that what is assumed of the
library can be met (`lawful_flatJson`).
-/

namespace Uatu

open Readers

/-! ## Strings -/

/-- A character in a string. -/
def escapeJson (c : Char) : Text :=
  if c = '"' then ['\\', '"']
  else if c = '\\' then ['\\', '\\']
  else if c = '\x08' then ['\\', 'b']
  else if c = '\x0c' then ['\\', 'f']
  else if c = '\n' then ['\\', 'n']
  else if c = '\r' then ['\\', 'r']
  else if c = '\t' then ['\\', 't']
  else if c.toNat < 0x20 then
    ['\\', 'u', '0', '0', Nat.digitChar (c.toNat / 16), Nat.digitChar (c.toNat % 16)]
  else [c]

/-- The character that an escape of two stands for. -/
def unescapeJson : Char → Option Char
  | '"' => some '"'
  | '\\' => some '\\'
  | 'b' => some '\x08'
  | 'f' => some '\x0c'
  | 'n' => some '\n'
  | 'r' => some '\r'
  | 't' => some '\t'
  | _ => none

/-- Read the characters of a string up to the quote. -/
def readChars : Reader Text Char
  | '"' :: s => some ([], s)
  | '\\' :: 'u' :: '0' :: '0' :: a :: b :: s =>
    (readChars s).map (Prod.map (Char.ofNat (16 * hexDigit a + hexDigit b) :: ·) id)
  | '\\' :: a :: s =>
    (unescapeJson a).bind fun c => (readChars s).map (Prod.map (c :: ·) id)
  | c :: s => (readChars s).map (Prod.map (c :: ·) id)
  | [] => none

def printString (s : Text) : Text := '"' :: (s.flatMap escapeJson ++ ['"'])

def readString : Reader Text Char
  | '"' :: s => readChars s
  | _ => none

theorem readChars_escapeJson (c : Char) (s : Text) :
    readChars (escapeJson c ++ s) = (readChars s).map (Prod.map (c :: ·) id) := by
  rw [escapeJson]
  split_ifs with h₁ h₂ h₃ h₄ h₅ h₆ h₇ h₈
  all_goals try subst c
  all_goals try rfl
  · change readChars ('\\' :: 'u' :: '0' :: '0' :: _ :: _ :: s) = _
    rw [readChars.eq_2, hexDigit_digitChar _ (by omega),
      hexDigit_digitChar _ (Nat.mod_lt _ (by decide)), Nat.div_add_mod, Char.ofNat_toNat]
  · rw [List.singleton_append, readChars.eq_4]
    · exact h₁
    · rintro a b s' rfl
      exact absurd rfl h₂
    · rintro a s' rfl
      exact absurd rfl h₂

theorem readString_printString (s rest : Text) :
    readString (printString s ++ rest) = some (s, rest) := by
  have hread := @PrefixCode.read_flatMap _ _ _ _ readChars (fun c => [c]) readChars_escapeJson s
    ('"' :: rest)
  rw [List.flatMap_singleton'] at hread
  rw [printString, List.cons_append, List.append_assoc]
  change readChars (s.flatMap escapeJson ++ '"' :: rest) = _
  rw [hread]
  change some (s ++ [], rest) = _
  rw [List.append_nil]

/-! ## Values -/

/-- A value of one of the types. -/
abbrev FieldValue := (τ : FieldType) × τ.Value

/-- The value in JSON. -/
def printValue : (τ : FieldType) → τ.Value → Text
  | .unsigned, v => decimal v.toNat
  | .string, s => printString s
  | .strings, l => '[' :: printList printString ',' ']' l
  | .boolean, true => "true".toList
  | .boolean, false => "false".toList

/-- Read the digits of a number. -/
def readNumber (s : Text) : Option (Word × Text) :=
  if s.takeWhile Char.isDigit ≠ [] ∧
      Nat.ofDigitChars 10 (s.takeWhile Char.isDigit) 0 < 2 ^ 64 then
    some (.ofNat 64 (Nat.ofDigitChars 10 (s.takeWhile Char.isDigit) 0), s.dropWhile Char.isDigit)
  else none

def readValue : Reader FieldValue Char
  | '"' :: s => (readChars s).map (Prod.map (⟨.string, ·⟩) id)
  | '[' :: s => (readList readString ',' ']' s).map (Prod.map (⟨.strings, ·⟩) id)
  | 't' :: 'r' :: 'u' :: 'e' :: s => some (⟨.boolean, true⟩, s)
  | 'f' :: 'a' :: 'l' :: 's' :: 'e' :: s => some (⟨.boolean, false⟩, s)
  | s => (readNumber s).map (Prod.map (⟨.unsigned, ·⟩) id)

theorem readNumber_decimal (v : Word) {x : Char} (hx : x.isDigit = false) (s : Text) :
    readNumber (decimal v.toNat ++ x :: s) = some (v, x :: s) := by
  have hdigits : ∀ a ∈ decimal v.toNat, a.isDigit := fun a ha => isDigit_of_mem_decimal ha
  have htake : (decimal v.toNat ++ x :: s).takeWhile Char.isDigit = decimal v.toNat := by
    rw [List.takeWhile_append_of_pos hdigits, List.takeWhile_cons_of_neg (by rw [hx]; decide),
      List.append_nil]
  have hdrop : (decimal v.toNat ++ x :: s).dropWhile Char.isDigit = x :: s := by
    rw [List.dropWhile_append_of_pos hdigits, List.dropWhile_cons_of_neg (by rw [hx]; decide)]
  have hval : Nat.ofDigitChars 10 (decimal v.toNat) 0 = v.toNat := Nat.ofDigitChars_ten_toDigits
  rw [readNumber, htake, hdrop, hval, if_pos ⟨decimal_ne_nil _, v.isLt⟩, BitVec.ofNat_toNat,
    BitVec.setWidth_eq]

theorem readValue_printValue (τ : FieldType) (v : τ.Value) {x : Char} (hx : x.isDigit = false)
    (s : Text) : readValue (printValue τ v ++ x :: s) = some (⟨τ, v⟩, x :: s) := by
  cases τ with
  | unsigned =>
    have hread := readNumber_decimal v hx s
    obtain ⟨a, t, ht⟩ := List.exists_cons_of_ne_nil (decimal_ne_nil v.toNat)
    have ha : a.isDigit := isDigit_of_mem_decimal (n := v.toNat) (by rw [ht]; simp)
    rw [ht, List.cons_append] at hread
    rw [printValue, ht, List.cons_append, readValue.eq_5, hread]
    · rfl
    all_goals
      intro s' hs
      rw [(List.cons_eq_cons.1 hs).1] at ha
      cases ha
  | string =>
    have hread := readString_printString v (x :: s)
    rw [printString, List.cons_append] at hread
    rw [printValue, printString, List.cons_append, readValue.eq_1]
    change (readString ('"' :: _)).map _ = _
    rw [hread]
    rfl
  | strings =>
    rw [printValue, List.cons_append, readValue.eq_2, readList_printList (by decide)]
    · rfl
    · exact fun s' x' t _ => readString_printString s' _
    · rintro s' t ⟨⟩
    · rintro s' ⟨⟩
  | boolean => cases v <;> rfl

/-! ## Objects -/

def printField (f : Field) : Text := printString f.key ++ ':' :: printValue f.type f.val

def readField (s : Text) : Option (Field × Text) := do
  let (key, s) ← readString s
  match s with
  | ':' :: s =>
    let (v, s) ← readValue s
    return (⟨key, v.1, v.2⟩, s)
  | _ => none

theorem readField_printField (f : Field) {x : Char} (hx : x.isDigit = false) (s : Text) :
    readField (printField f ++ x :: s) = some (f, x :: s) := by
  rw [printField, List.append_assoc, List.cons_append, readField, readString_printString]
  change (readValue _ >>= _) = _
  rw [readValue_printValue f.type f.val hx]
  rfl

/-- A value that nothing has been assigned to, or an object. -/
inductive FlatJson
  | null
  | object (fields : List Field)

/-- Put a field in its place, which another with its key may have. -/
def insertField (f : Field) : List Field → List Field
  | [] => [f]
  | g :: l =>
    if f.key = g.key then f :: l
    else if f.key < g.key then f :: g :: l
    else g :: insertField f l

namespace FlatJson

def set (j : FlatJson) (key : Text) (τ : FieldType) (v : τ.Value) : FlatJson :=
  match j with
  | null => object [⟨key, τ, v⟩]
  | object l => object (insertField ⟨key, τ, v⟩ l)

def dump : FlatJson → Text
  | null => "null".toList
  | object l => '{' :: printList printField ',' '}' l

def parse : Text → Except JsonException FlatJson
  | ['n', 'u', 'l', 'l'] => .ok null
  | '{' :: s =>
    match readList readField ',' '}' s with
    | some (l, []) => .ok (object l)
    | _ => .error (.json "parse error".toList)
  | _ => .error (.json "parse error".toList)

def value (j : FlatJson) (key : Text) (τ : FieldType) (default : τ.Value) :
    Except JsonException τ.Value :=
  match j with
  | null => .error (.json "cannot use value() with null".toList)
  | object l =>
    match l.find? fun f => f.key = key with
    | none => .ok default
    | some f => if h : f.type = τ then .ok (h ▸ f.val) else .error (.json "type error".toList)

theorem parse_dump (j : FlatJson) : parse (dump j) = .ok j := by
  cases j with
  | null => rfl
  | object l =>
    have hread : readList readField ',' '}' (printList printField ',' '}' l ++ []) =
        some (l, []) := by
      apply readList_printList (by decide)
      · rintro f x s (rfl | rfl)
        · exact readField_printField f rfl s
        · exact readField_printField f rfl s
      · rintro f s ⟨⟩
      · rintro f ⟨⟩
    rw [List.append_nil] at hread
    rw [dump, parse, hread]

theorem find?_insertField_self (f : Field) (l : List Field) :
    (insertField f l).find? (fun g => g.key = f.key) = some f := by
  induction l with
  | nil => simp [insertField]
  | cons g l ih =>
    rw [insertField]
    split_ifs with heq hlt
    · simp
    · simp
    · rw [List.find?_cons_of_neg (by simpa using Ne.symm heq), ih]

theorem find?_insertField_of_ne (f : Field) (l : List Field) {key : Text} (h : key ≠ f.key) :
    (insertField f l).find? (fun g => g.key = key) = l.find? fun g => g.key = key := by
  have hf : ∀ l, List.find? (fun g : Field => g.key = key) (f :: l) =
      l.find? fun g => g.key = key :=
    fun l => List.find?_cons_of_neg (by simpa using h.symm)
  induction l with
  | nil => exact hf []
  | cons g l ih =>
    rw [insertField]
    split_ifs with heq hlt
    · rw [hf, List.find?_cons_of_neg]
      simpa [← heq] using h.symm
    · exact hf _
    · rw [List.find?_cons, List.find?_cons, ih]

theorem value_set (j : FlatJson) (key : Text) (τ : FieldType) (v default : τ.Value) :
    value (set j key τ v) key τ default = .ok v := by
  cases j with
  | null => simp [set, value]
  | object l =>
    have hfind := find?_insertField_self ⟨key, τ, v⟩ l
    simp only [set, value, hfind, dif_pos]

theorem value_set_ne (l : List Field) (key : Text) (τ : FieldType) (v : τ.Value) {key' : Text}
    {τ' : FieldType} (default : τ'.Value) (h : key' ≠ key) :
    value (set (object l) key τ v) key' τ' default = value (object l) key' τ' default := by
  have hfind := find?_insertField_of_ne ⟨key, τ, v⟩ l h
  simp only [set, value, hfind]

theorem value_error (j : FlatJson) (key : Text) (τ : FieldType) (default : τ.Value)
    (e : JsonException) (h : value j key τ default = .error e) : ∃ what, e = .json what := by
  cases j with
  | null => exact ⟨_, (Except.error.inj h).symm⟩
  | object l =>
    rw [value] at h
    split at h
    · cases h
    · split_ifs at h
      exact ⟨_, (Except.error.inj h).symm⟩

theorem parse_error (s : Text) (e : JsonException) (h : parse s = .error e) :
    ∃ what, e = .json what := by
  unfold parse at h
  split at h
  · cases h
  · split at h
    · cases h
    · exact ⟨_, (Except.error.inj h).symm⟩
  · exact ⟨_, (Except.error.inj h).symm⟩

/-- The fields of an object. -/
def fields : FlatJson → List Field
  | null => []
  | object l => l

theorem mem_insertField {f g : Field} {l : List Field} (h : g ∈ insertField f l) :
    g = f ∨ g ∈ l := by
  induction l with
  | nil => exact .inl (List.mem_singleton.1 h)
  | cons g' l ih =>
    rw [insertField] at h
    split_ifs at h
    · exact (List.mem_cons.1 h).imp id (List.mem_cons_of_mem g')
    · exact List.mem_cons.1 h
    · rcases List.mem_cons.1 h with rfl | h
      · exact .inr (List.mem_cons_self ..)
      · exact (ih h).imp id (List.mem_cons_of_mem g')

theorem mem_fields_set {j : FlatJson} {key : Text} {τ : FieldType} {v : τ.Value} {f : Field}
    (h : f ∈ (j.set key τ v).fields) : f = ⟨key, τ, v⟩ ∨ f ∈ j.fields := by
  cases j with
  | null => exact .inl (List.mem_singleton.1 h)
  | object l => exact mem_insertField h

end FlatJson

/-- That library. -/
def flatJson : Nlohmann where
  Json := FlatJson
  null := .null
  set j key τ v := .ok (j.set key τ v)
  dump j := .ok j.dump
  parse := FlatJson.parse
  value := FlatJson.value
  isObject j := j ≠ .null
  validUtf8 j := ∀ f ∈ j.fields, f.ValidUtf8

theorem lawful_flatJson : flatJson.Lawful where
  set_ok j key τ v _ := ⟨_, rfl, by cases j <;> rintro ⟨⟩⟩
  value_set j key τ v j' h default := by
    obtain rfl := Except.ok.inj h
    exact FlatJson.value_set ..
  value_set_ne j key τ v j' hj h key' τ' default hne := by
    obtain rfl := Except.ok.inj h
    cases j with
    | null => exact absurd rfl hj
    | object l => exact FlatJson.value_set_ne _ _ _ _ _ hne
  validUtf8_null := nofun
  validUtf8_set j key τ v j' hj hkey hv h f hf := by
    obtain rfl := Except.ok.inj h
    rcases FlatJson.mem_fields_set hf with rfl | hf
    · exact ⟨hkey, hv⟩
    · exact hj f hf
  parse_dump j _ := ⟨_, rfl, j.parse_dump⟩
  parse_error := FlatJson.parse_error
  value_error := FlatJson.value_error

/-- The event of a method, with a string among its parameters. -/
def WatchEvent.foo : WatchEvent where
  timestampNs := 1234567890
  durationNs := 230000
  funcName := "fixtures::Foo::bar".toList
  params := ["5".toList, "\"hello\"".toList]
  retValue := "\"hello5\"".toList

theorem validUtf8_foo : WatchEvent.foo.ValidUtf8 := by
  refine ⟨validUtf8_of_ascii (by decide), ?_, validUtf8_of_ascii (by decide)⟩
  simp only [WatchEvent.foo, List.forall_mem_cons]
  exact ⟨validUtf8_of_ascii (by decide), validUtf8_of_ascii (by decide), nofun⟩

/-- It is valid, and this is its text. -/
theorem roundTrips_flatJson : flatJson.RoundTrips ∧ WatchEvent.foo.ValidUtf8 ∧
    encode flatJson .foo = .ok ("\x7b\"duration_ns\":230000,".toList ++
      "\"func\":\"fixtures::Foo::bar\",\"is_exception\":false,".toList ++
      "\"params\":[\"5\",\"\\\"hello\\\"\"],\"ret\":\"\\\"hello5\\\"\",".toList ++
      "\"ts\":1234567890,\"type\":\"watch\"\x7d".toList) :=
  ⟨roundTrips_of_lawful lawful_flatJson, validUtf8_foo, rfl⟩

end Uatu
