import Uatu.Types

/-!
# The JSON codec

`src/protocol/json_codec.cpp`: an event is written field by field, and read field by field with
defaults. The library that it is built on is a parameter (`Nlohmann`), of which some documented
properties are assumed (`Nlohmann.Lawful`); with these, what is written is read back
(`roundTrips_of_lawful`).
-/

namespace Uatu

/-! ## Strings -/

/-- The bytes of a string of Unicode characters, in UTF-8. -/
def utf8 (cs : List Char) : Text :=
  cs.flatMap fun c => (String.utf8EncodeChar c).map fun b => Char.ofNat b.toNat

/-- The string is valid UTF-8. -/
def ValidUtf8 (s : Text) : Prop := ∃ cs, s = utf8 cs

/-- All strings of an event are valid UTF-8. -/
structure WatchEvent.ValidUtf8 (ev : WatchEvent) : Prop where
  funcName : Uatu.ValidUtf8 ev.funcName
  params : ∀ param ∈ ev.params, Uatu.ValidUtf8 param
  retValue : Uatu.ValidUtf8 ev.retValue

/-- All strings of an event are valid UTF-8. -/
structure StackEvent.ValidUtf8 (ev : StackEvent) : Prop where
  funcName : Uatu.ValidUtf8 ev.funcName
  frames : ∀ frame ∈ ev.frames, Uatu.ValidUtf8 frame

/-! ## The library -/

/-- What the codec and the library below it throw. -/
inductive JsonException
  /-- `nlohmann::json::exception`. -/
  | json (what : Text)
  /-- `std::runtime_error`. -/
  | runtimeError (what : Text)
  | other
  deriving DecidableEq

/-- The types of the fields. -/
inductive FieldType
  /-- `uint64_t`. -/
  | unsigned
  /-- `std::string`. -/
  | string
  /-- `std::vector<std::string>`. -/
  | strings
  /-- `bool`. -/
  | boolean
  deriving DecidableEq

abbrev FieldType.Value : FieldType → Type
  | .unsigned => Word
  | .string => Text
  | .strings => List Text
  | .boolean => Bool

/-- All strings of a field are valid UTF-8. -/
def FieldType.ValidUtf8 : (τ : FieldType) → τ.Value → Prop
  | .unsigned, _ => True
  | .string, s => Uatu.ValidUtf8 s
  | .strings, l => ∀ s ∈ l, Uatu.ValidUtf8 s
  | .boolean, _ => True

/-- `nlohmann::json`, as far as the codec uses it. -/
structure Nlohmann where
  Json : Type
  /-- A value that nothing has been assigned to. -/
  null : Json
  /-- `j[key] = v`. -/
  set : Json → Text → (τ : FieldType) → τ.Value → Except JsonException Json
  dump : Json → Except JsonException Text
  parse : Text → Except JsonException Json
  /-- `j.value(key, default)`. -/
  value : Json → Text → (τ : FieldType) → τ.Value → Except JsonException τ.Value
  /-- `j.is_object()`. -/
  isObject : Json → Prop
  /-- All strings in the value, its keys among them, are valid UTF-8. -/
  validUtf8 : Json → Prop

/-- What is documented of the library. -/
structure Nlohmann.Lawful (lib : Nlohmann) : Prop where
  /-- A value can be assigned to a key of an object. An empty value becomes one by that. -/
  set_ok : ∀ j key τ v, j = lib.null ∨ lib.isObject j →
    ∃ j', lib.set j key τ v = .ok j' ∧ lib.isObject j'
  /-- The key has the value that it was assigned. -/
  value_set : ∀ j key τ v j', lib.set j key τ v = .ok j' →
    ∀ default, lib.value j' key τ default = .ok v
  /-- The other keys keep their values. -/
  value_set_ne : ∀ j key τ v j', lib.isObject j → lib.set j key τ v = .ok j' →
    ∀ key' τ' default, key' ≠ key → lib.value j' key' τ' default = lib.value j key' τ' default
  validUtf8_null : lib.validUtf8 lib.null
  validUtf8_set : ∀ j key τ v j', lib.validUtf8 j → ValidUtf8 key → τ.ValidUtf8 v →
    lib.set j key τ v = .ok j' → lib.validUtf8 j'
  /-- `parse` inverts `dump` on values with valid strings. -/
  parse_dump : ∀ j, lib.validUtf8 j → ∃ s, lib.dump j = .ok s ∧ lib.parse s = .ok j
  /-- Errors are signalled by `json::exception` only. -/
  parse_error : ∀ s e, lib.parse s = .error e → ∃ what, e = .json what
  value_error : ∀ j key τ default e, lib.value j key τ default = .error e → ∃ what, e = .json what

/-! ## The codec -/

section Codec

variable (lib : Nlohmann)

/-- `encode`. -/
def encode (ev : WatchEvent) : Except JsonException Text := do
  let j := lib.null
  let j ← lib.set j "type".toList .string "watch".toList
  let j ← lib.set j "ts".toList .unsigned ev.timestampNs
  let j ← lib.set j "duration_ns".toList .unsigned ev.durationNs
  let j ← lib.set j "func".toList .string ev.funcName
  let j ← lib.set j "params".toList .strings ev.params
  let j ← lib.set j "ret".toList .string ev.retValue
  let j ← lib.set j "is_exception".toList .boolean ev.isException
  lib.dump j

/-- The handler of both decoders. -/
def catchJson {α : Type} : Except JsonException α → Except JsonException α
  | .error (.json what) => .error (.runtimeError ("JSON decode error: ".toList ++ what))
  | result => result

/-- `decode_watch`. -/
def decodeWatch (s : Text) : Except JsonException WatchEvent :=
  catchJson do
    let j ← lib.parse s
    let timestampNs ← lib.value j "ts".toList .unsigned 0
    let durationNs ← lib.value j "duration_ns".toList .unsigned 0
    let funcName ← lib.value j "func".toList .string []
    let params ← lib.value j "params".toList .strings []
    let retValue ← lib.value j "ret".toList .string []
    let isException ← lib.value j "is_exception".toList .boolean false
    return ⟨timestampNs, durationNs, funcName, params, retValue, isException⟩

/-- `encode_stack`. -/
def encodeStack (ev : StackEvent) : Except JsonException Text := do
  let j := lib.null
  let j ← lib.set j "type".toList .string "stack".toList
  let j ← lib.set j "ts".toList .unsigned ev.timestampNs
  let j ← lib.set j "func".toList .string ev.funcName
  let j ← lib.set j "frames".toList .strings ev.frames
  lib.dump j

/-- `decode_stack`. -/
def decodeStack (s : Text) : Except JsonException StackEvent :=
  catchJson do
    let j ← lib.parse s
    let timestampNs ← lib.value j "ts".toList .unsigned 0
    let funcName ← lib.value j "func".toList .string []
    let frames ← lib.value j "frames".toList .strings []
    return ⟨timestampNs, funcName, frames⟩

end Codec

/-! ## Writing -/

/-- A field of an object. -/
structure Field where
  key : Text
  type : FieldType
  val : type.Value

/-- Assign the fields of a list, one after the other. -/
def Nlohmann.setAll (lib : Nlohmann) : lib.Json → List Field → Except JsonException lib.Json
  | j, [] => .ok j
  | j, f :: l => do
    let j ← lib.set j f.key f.type f.val
    lib.setAll j l

/-- All strings of a field are valid UTF-8. -/
def Field.ValidUtf8 (f : Field) : Prop := Uatu.ValidUtf8 f.key ∧ f.type.ValidUtf8 f.val

/-- An object with these fields, or nothing yet. -/
structure Nlohmann.Holds (lib : Nlohmann) (j : lib.Json) (l : List Field) : Prop where
  isObject : lib.isObject j ∨ j = lib.null ∧ l = []
  validUtf8 : lib.validUtf8 j
  value : ∀ f ∈ l, ∀ default, lib.value j f.key f.type default = .ok f.val

section Writing

variable {lib : Nlohmann} {j : lib.Json} {l l' : List Field} {f : Field}

theorem Nlohmann.Lawful.holds_null (h : lib.Lawful) : lib.Holds lib.null [] :=
  ⟨.inr ⟨rfl, rfl⟩, h.validUtf8_null, nofun⟩

/-- A new field is there afterwards, and those before it stay. -/
theorem Nlohmann.Holds.set (hj : lib.Holds j l) (h : lib.Lawful) (hf : f.ValidUtf8)
    (hnew : f.key ∉ l.map Field.key) :
    ∃ j', lib.set j f.key f.type f.val = .ok j' ∧ lib.Holds j' (l ++ [f]) := by
  obtain ⟨j', hset, hobject⟩ := h.set_ok j f.key f.type f.val
    (hj.isObject.symm.imp And.left id)
  refine ⟨j', hset, .inl hobject, h.validUtf8_set _ _ _ _ _ hj.validUtf8 hf.1 hf.2 hset, ?_⟩
  intro g hg default
  rcases List.mem_append.1 hg with hg | hg
  · rcases hj.isObject with hold | ⟨-, rfl⟩
    · have hne : g.key ≠ f.key := fun heq => hnew (List.mem_map.2 ⟨g, hg, heq⟩)
      rw [h.value_set_ne _ _ _ _ _ hold hset _ _ _ hne]
      exact hj.value g hg default
    · cases hg
  · obtain rfl := List.mem_singleton.1 hg
    exact h.value_set _ _ _ _ _ hset default

/-- So with a list of them. -/
theorem Nlohmann.Holds.setAll (hj : lib.Holds j l) (h : lib.Lawful)
    (hl' : ∀ f ∈ l', f.ValidUtf8) (hkeys : ((l ++ l').map Field.key).Nodup) :
    ∃ j', lib.setAll j l' = .ok j' ∧ lib.Holds j' (l ++ l') := by
  induction l' generalizing j l with
  | nil => exact ⟨j, rfl, by rwa [List.append_nil]⟩
  | cons f l' ih =>
    have hnew : f.key ∉ l.map Field.key := by
      rw [List.map_append, List.map_cons] at hkeys
      exact fun hmem => List.disjoint_of_nodup_append hkeys hmem (List.mem_cons_self ..)
    have hsplit : l ++ f :: l' = l ++ [f] ++ l' := by
      rw [List.append_assoc, List.singleton_append]
    obtain ⟨j₁, hset, hj₁⟩ := hj.set h (hl' f (List.mem_cons_self ..)) hnew
    rw [hsplit] at hkeys ⊢
    obtain ⟨j', hall, hj'⟩ := ih hj₁ (fun g hg => hl' g (List.mem_cons_of_mem f hg)) hkeys
    refine ⟨j', ?_, hj'⟩
    rw [Nlohmann.setAll, hset]
    exact hall

/-- A text of these fields can be made, and be read. -/
theorem Nlohmann.Lawful.dump_setAll (h : lib.Lawful) (hl : ∀ f ∈ l, f.ValidUtf8)
    (hkeys : (l.map Field.key).Nodup) :
    ∃ s j, (lib.setAll lib.null l >>= lib.dump) = .ok s ∧ lib.parse s = .ok j ∧
      ∀ f ∈ l, ∀ default, lib.value j f.key f.type default = .ok f.val := by
  obtain ⟨j, hall, hj⟩ := h.holds_null.setAll h hl hkeys
  obtain ⟨s, hdump, hparse⟩ := h.parse_dump j hj.validUtf8
  refine ⟨s, j, ?_, hparse, hj.value⟩
  rw [hall]
  exact hdump

end Writing

/-! ## Events -/

/-- The fields of an event. -/
def WatchEvent.fields (ev : WatchEvent) : List Field :=
  [⟨"type".toList, .string, "watch".toList⟩, ⟨"ts".toList, .unsigned, ev.timestampNs⟩,
    ⟨"duration_ns".toList, .unsigned, ev.durationNs⟩, ⟨"func".toList, .string, ev.funcName⟩,
    ⟨"params".toList, .strings, ev.params⟩, ⟨"ret".toList, .string, ev.retValue⟩,
    ⟨"is_exception".toList, .boolean, ev.isException⟩]

/-- The fields of an event. -/
def StackEvent.fields (ev : StackEvent) : List Field :=
  [⟨"type".toList, .string, "stack".toList⟩, ⟨"ts".toList, .unsigned, ev.timestampNs⟩,
    ⟨"func".toList, .string, ev.funcName⟩, ⟨"frames".toList, .strings, ev.frames⟩]

section Events

variable {lib : Nlohmann}

theorem encode_eq (ev : WatchEvent) :
    encode lib ev = lib.setAll lib.null ev.fields >>= lib.dump := by
  simp only [encode, WatchEvent.fields, Nlohmann.setAll, bind_assoc]
  rfl

theorem encodeStack_eq (ev : StackEvent) :
    encodeStack lib ev = lib.setAll lib.null ev.fields >>= lib.dump := by
  simp only [encodeStack, StackEvent.fields, Nlohmann.setAll, bind_assoc]
  rfl

theorem validUtf8_of_ascii {s : Text} (h : utf8 s = s) : ValidUtf8 s := ⟨s, h.symm⟩

theorem WatchEvent.ValidUtf8.fields {ev : WatchEvent} (h : ev.ValidUtf8) :
    ∀ f ∈ ev.fields, f.ValidUtf8 := by
  have hkeys : ∀ f ∈ ev.fields, Uatu.ValidUtf8 f.key := by
    simp only [WatchEvent.fields, List.forall_mem_cons]
    refine ⟨?_, ?_, ?_, ?_, ?_, ?_, ?_, nofun⟩ <;> exact validUtf8_of_ascii (by decide)
  have hvals : ∀ f ∈ ev.fields, f.type.ValidUtf8 f.val := by
    simp only [WatchEvent.fields, List.forall_mem_cons]
    exact ⟨validUtf8_of_ascii (by decide), trivial, trivial, h.funcName, h.params, h.retValue,
      trivial, nofun⟩
  exact fun f hf => ⟨hkeys f hf, hvals f hf⟩

theorem StackEvent.ValidUtf8.fields {ev : StackEvent} (h : ev.ValidUtf8) :
    ∀ f ∈ ev.fields, f.ValidUtf8 := by
  have hkeys : ∀ f ∈ ev.fields, Uatu.ValidUtf8 f.key := by
    simp only [StackEvent.fields, List.forall_mem_cons]
    refine ⟨?_, ?_, ?_, ?_, nofun⟩ <;> exact validUtf8_of_ascii (by decide)
  have hvals : ∀ f ∈ ev.fields, f.type.ValidUtf8 f.val := by
    simp only [StackEvent.fields, List.forall_mem_cons]
    exact ⟨validUtf8_of_ascii (by decide), trivial, h.funcName, h.frames, nofun⟩
  exact fun f hf => ⟨hkeys f hf, hvals f hf⟩

theorem WatchEvent.nodup_keys (ev : WatchEvent) : (ev.fields.map Field.key).Nodup := by
  simp [WatchEvent.fields]

theorem StackEvent.nodup_keys (ev : StackEvent) : (ev.fields.map Field.key).Nodup := by
  simp [StackEvent.fields]

/-- An event is read back from its text. -/
theorem decodeWatch_encode (h : lib.Lawful) {ev : WatchEvent} (hev : ev.ValidUtf8) :
    ∃ s, encode lib ev = .ok s ∧ decodeWatch lib s = .ok ev := by
  obtain ⟨s, j, hs, hparse, hvalue⟩ := h.dump_setAll hev.fields ev.nodup_keys
  simp only [WatchEvent.fields, List.forall_mem_cons] at hvalue
  obtain ⟨-, hts, hduration, hfunc, hparams, hret, hexception, -⟩ := hvalue
  refine ⟨s, (encode_eq ev).trans hs, ?_⟩
  simp only [decodeWatch, hparse, hts, hduration, hfunc, hparams, hret, hexception, bind,
    Except.bind]
  rfl

theorem decodeStack_encodeStack (h : lib.Lawful) {ev : StackEvent} (hev : ev.ValidUtf8) :
    ∃ s, encodeStack lib ev = .ok s ∧ decodeStack lib s = .ok ev := by
  obtain ⟨s, j, hs, hparse, hvalue⟩ := h.dump_setAll hev.fields ev.nodup_keys
  simp only [StackEvent.fields, List.forall_mem_cons] at hvalue
  obtain ⟨-, hts, hfunc, hframes, -⟩ := hvalue
  refine ⟨s, (encodeStack_eq ev).trans hs, ?_⟩
  simp only [decodeStack, hparse, hts, hfunc, hframes, bind, Except.bind]
  rfl

end Events

/-! ## Errors -/

/-- The only errors are those of the library. -/
def SignalsJson {α : Type} (x : Except JsonException α) : Prop :=
  ∀ e, x = .error e → ∃ what, e = .json what

section Errors

variable {lib : Nlohmann} {α β : Type} {x : Except JsonException α}

theorem signalsJson_pure (a : α) : SignalsJson (pure a) := nofun

theorem SignalsJson.bind {f : α → Except JsonException β} (hx : SignalsJson x)
    (hf : ∀ a, SignalsJson (f a)) : SignalsJson (x >>= f) := by
  intro e he
  cases x with
  | error e' =>
    obtain rfl := Except.error.inj he
    exact hx e' rfl
  | ok a => exact hf a e he

theorem Nlohmann.Lawful.signalsJson_value_bind (h : lib.Lawful) {j : lib.Json} {key : Text}
    {τ : FieldType} {default : τ.Value} {f : τ.Value → Except JsonException β}
    (hf : ∀ v, SignalsJson (f v)) : SignalsJson (lib.value j key τ default >>= f) :=
  .bind (h.value_error j key τ default) hf

/-- The handler makes runtime errors of them. -/
theorem SignalsJson.catchJson (hx : SignalsJson x) {e : JsonException}
    (he : catchJson x = .error e) : ∃ what, e = .runtimeError what := by
  cases x with
  | error e' =>
    obtain ⟨what, rfl⟩ := hx e' rfl
    exact ⟨_, (Except.error.inj he).symm⟩
  | ok a => cases he

theorem decodeWatch_error (h : lib.Lawful) {s : Text} {e : JsonException}
    (he : decodeWatch lib s = .error e) : ∃ what, e = .runtimeError what := by
  refine SignalsJson.catchJson (.bind (h.parse_error s) fun j => ?_) he
  iterate 6 refine h.signalsJson_value_bind fun _ => ?_
  exact signalsJson_pure _

theorem decodeStack_error (h : lib.Lawful) {s : Text} {e : JsonException}
    (he : decodeStack lib s = .error e) : ∃ what, e = .runtimeError what := by
  refine SignalsJson.catchJson (.bind (h.parse_error s) fun j => ?_) he
  iterate 3 refine h.signalsJson_value_bind fun _ => ?_
  exact signalsJson_pure _

end Errors

/-- The codec over a library. -/
structure Nlohmann.RoundTrips (lib : Nlohmann) : Prop where
  watch : ∀ ev : WatchEvent, ev.ValidUtf8 →
    ∃ s, encode lib ev = .ok s ∧ decodeWatch lib s = .ok ev
  stack : ∀ ev : StackEvent, ev.ValidUtf8 →
    ∃ s, encodeStack lib ev = .ok s ∧ decodeStack lib s = .ok ev
  /-- A decoder returns an event or throws a runtime error. -/
  watchErrors : ∀ s e, decodeWatch lib s = .error e → ∃ what, e = .runtimeError what
  stackErrors : ∀ s e, decodeStack lib s = .error e → ∃ what, e = .runtimeError what

/-- **The codec loses nothing**, and its decoders throw only runtime errors. -/
theorem roundTrips_of_lawful {lib : Nlohmann} (h : lib.Lawful) : lib.RoundTrips where
  watch _ hev := decodeWatch_encode h hev
  stack _ hev := decodeStack_encodeStack h hev
  watchErrors _ _ he := decodeWatch_error h he
  stackErrors _ _ he := decodeStack_error h he

end Uatu
