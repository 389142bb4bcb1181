import Uatu.Engine.Events
import Uatu.Engine.SampleOrder
import Uatu.Foundations.Hexadecimal
import Uatu.Protocol.FlatJson

/-!
# Events in JSON

The codec throws on strings that are not UTF-8, and the process has strings of any bytes in its
memory. What the engine makes of them is printable, so of an event only the names of functions
matter: what a run of `watch` or `stack` returns can be written and read back if the functions of
the executable have names in UTF-8 (`watch_encodes`, `stack_encodes`).

The decoders do not look at the type that is written. Each of them makes an event of a text of the
other kind, with the fields that the two share and the defaults of the others (`decodes_other`).
-/

namespace Uatu

open Throwing

variable {R : Type}

/-! ## Printable texts -/

/-- All characters of the text are printable ASCII. -/
def AllPrintable (s : Text) : Prop := ∀ c ∈ s, Printable c

instance : DecidablePred AllPrintable := fun s => List.decidableBAll _ s

theorem AllPrintable.append {s t : Text} (hs : AllPrintable s) (ht : AllPrintable t) :
    AllPrintable (s ++ t) :=
  List.forall_mem_append.2 ⟨hs, ht⟩

/-- ASCII is its own UTF-8. -/
theorem AllPrintable.validUtf8 {s : Text} (h : AllPrintable s) : ValidUtf8 s := by
  refine validUtf8_of_ascii ?_
  induction s with
  | nil => rfl
  | cons c s ih =>
    obtain ⟨hc, hs⟩ := List.forall_mem_cons.1 h
    have hsize : c.utf8Size = 1 := by
      rw [Char.utf8Size_eq_one_iff, UInt32.le_iff_toNat_le]
      exact hc.2.trans (by decide)
    have hlt : c.val.toNat < 2 ^ 8 := hc.2.trans_lt (by decide)
    have hbyte : Char.ofNat c.val.toUInt8.toNat = c := by
      rw [UInt32.toNat_toUInt8, Nat.mod_eq_of_lt hlt]
      exact Char.ofNat_toNat c
    unfold utf8 at ih ⊢
    rw [List.flatMap_cons, String.utf8EncodeChar_eq_singleton hsize, ih hs, List.map_singleton,
      hbyte, List.singleton_append]

theorem printable_of_isHexDigit {c : Char} (h : c.isHexDigit = true) : Printable c := by
  simp only [Char.isHexDigit, Char.isDigit, Bool.or_eq_true, Bool.and_eq_true, decide_eq_true_eq,
    ge_iff_le, UInt32.le_iff_toNat_le] at h
  change ((48 ≤ c.toNat ∧ c.toNat ≤ 57) ∨ (97 ≤ c.toNat ∧ c.toNat ≤ 102)) ∨
    (65 ≤ c.toNat ∧ c.toNat ≤ 70) at h
  exact ⟨by omega, by omega⟩

theorem allPrintable_decimal (n : ℕ) : AllPrintable (decimal n) := fun c hc =>
  printable_of_isHexDigit (by simp [Char.isHexDigit, isDigit_of_mem_decimal hc])

theorem allPrintable_hex (v : Word) : AllPrintable (hex v) := fun _ hc =>
  printable_of_isHexDigit (Hexadecimal.isHexDigit_of_mem_toDigits hc)

theorem allPrintable_formatParamVal (v : Word) (type : Text) :
    AllPrintable (formatParamVal v type) := by
  have hhex := allPrintable_hex v
  rw [formatParamVal_eq]
  cases shape (stripCv type) with
  | bool =>
    rw [Shape.text]
    split_ifs <;> decide
  | signed width =>
    rw [Shape.text, signedDecimal]
    split_ifs
    · exact AllPrintable.append (s := ['-']) (by decide) (allPrintable_decimal _)
    · exact allPrintable_decimal _
  | pointer chars =>
    rw [Shape.text]
    split_ifs
    · decide
    · exact .append (.append (by decide) hhex) (by decide)
    · exact .append (by decide) hhex
  | reference => exact .append (by decide) hhex
  | unsigned => exact allPrintable_decimal _

/-- Whatever bytes there are in memory, a parameter is shown in printable characters. -/
theorem paramTexts_allPrintable : ParamTexts AllPrintable where
  xmm k := .append (.append (by decide) (allPrintable_decimal k)) (by decide)
  value := allPrintable_formatParamVal
  string bytes :=
    .append (.append (by decide) (readable_flatMap_escape bytes).printable) (by decide)
  unknown := by decide

theorem allPrintable_hexAddr (x : Addr) : AllPrintable (Stack.hexAddr x) := by
  refine .append (by decide) ?_
  rw [List.leftpad]
  refine .append (fun c hc => ?_) (allPrintable_hex x)
  rw [List.eq_of_mem_replicate hc]
  decide

/-! ## Events -/

/-- The functions of the executable have names in UTF-8. -/
def Impl.Utf8Names (impl : Impl) : Prop :=
  ∀ finder, impl.finder = .ok finder → ∀ fi ∈ finder.cache, ValidUtf8 fi.name

theorem WatchEvent.Of.validUtf8 {fi : FuncInfo} {ev : WatchEvent} (h : ev.Of fi)
    (hname : Uatu.ValidUtf8 fi.name) : ev.ValidUtf8 where
  funcName := h.funcName ▸ hname
  params s hs := (h.forall_params paramTexts_allPrintable s hs).validUtf8
  retValue := by
    obtain ⟨v, hv⟩ := h.retValue
    rw [hv]
    exact (allPrintable_formatParamVal v _).validUtf8

theorem Stack.EventOf.validUtf8 {finder : SymbolFinder} {name : Text} {r : Round R}
    {ev : StackEvent} (h : EventOf name finder r ev) (hname : Uatu.ValidUtf8 name)
    (hnames : ∀ fi ∈ finder.cache, Uatu.ValidUtf8 fi.name) : ev.ValidUtf8 where
  funcName := h.funcName ▸ hname
  frames := by
    obtain ⟨callers, hframes, -, hshown⟩ := h.frames
    rw [hframes, List.forall_mem_cons]
    refine ⟨hname, fun frame hframe => ?_⟩
    obtain ⟨fi, hfi, rfl⟩ | ⟨x, rfl⟩ := hshown frame hframe
    · exact hnames fi hfi
    · exact (allPrintable_hexAddr x).validUtf8

/-- **What `watch` returns is in UTF-8 and can be written and read back**, whatever is in the memory
of the process. -/
theorem watch_encodes {lib : Nlohmann} (hlib : lib.Lawful) {A : Arch R} {impl : Impl}
    {regex : RegexEngine} {funcName : Text} {maxEvents timeoutMs : ℤ} {env : WatchScript R}
    {w u : World R} {evs : List WatchEvent} (hnames : impl.Utf8Names)
    (h : watchChecked A impl regex funcName maxEvents timeoutMs env w = .ok (.ok evs) u) :
    ∀ ev ∈ evs, ev.ValidUtf8 ∧ ∃ s, encode lib ev = .ok s ∧ decodeWatch lib s = .ok ev := by
  obtain ⟨targets, htargets, hevents⟩ := watch_events h
  obtain ⟨finder, hfinder, hmem⟩ := Impl.mem_cache_of_targets htargets
  intro ev hev
  obtain ⟨fi, hfi, hof⟩ := hevents ev hev
  have hvalid := hof.validUtf8 (hnames finder hfinder fi (hmem fi hfi))
  exact ⟨hvalid, decodeWatch_encode hlib hvalid⟩

/-- **And so can what `stack` returns.** -/
theorem stack_encodes {lib : Nlohmann} (hlib : lib.Lawful) {A : Arch R} {impl : Impl}
    {funcName : Text} {count timeoutMs : ℤ} {env : Script R}
    {s t : Session R StackVars StackEvent} {evs : List StackEvent} (hnames : impl.Utf8Names)
    (h : stack A impl funcName count timeoutMs env s = .ok evs t) :
    ∀ ev ∈ evs, ∃ s, encodeStack lib ev = .ok s ∧ decodeStack lib s = .ok ev := by
  obtain ⟨c, rounds, hserves, -, picked, hsampled⟩ := Stack.exists_sampled h
  have hutf8 := hnames c.finder hserves.finder
  obtain ⟨fi, hfi, hname⟩ := hserves.found
  have hfunc : ValidUtf8 c.funcName := by
    rw [hserves.funcName, ← hname]
    exact hutf8 fi hfi
  have hvalid : List.Forall₂ (fun ev r => ev.ValidUtf8 ∧ Stack.EventOf c.funcName c.finder r ev)
      evs picked :=
    List.Forall₂.flip (hsampled.events.imp fun r ev hr => ⟨hr.validUtf8 hfunc hutf8, hr⟩)
  intro ev hev
  exact decodeStack_encodeStack hlib (((List.forall₂_and_left ..).1 hvalid).1 ev hev)

theorem Impl.utf8Names_single : Impl.single.Utf8Names := by
  intro finder hfinder
  obtain rfl := Except.ok.inj hfinder
  intro fi hfi
  rw [List.mem_singleton.1 hfi]
  exact validUtf8_of_ascii (by decide)

theorem watch_encodes_timedCall : ∃ evs u,
    watchChecked x86_64 Impl.single (fun _ => .error []) "f".toList 1 1
      (.noEbpf false fun _ => .timedCall) (World.init 1 (.single default)) = .ok (.ok evs) u ∧
    evs ≠ [] ∧ ∀ ev ∈ evs, ev.ValidUtf8 ∧
      ∃ s, encode flatJson ev = .ok s ∧ decodeWatch flatJson s = .ok ev := by
  have hrun : watchChecked x86_64 Impl.single (fun _ => .error []) "f".toList 1 1
      (.noEbpf false fun _ => .timedCall) (World.init 1 (.single default)) =
      .ok (.ok [⟨0, 250, "f".toList, [], "0".toList, false⟩]) (finalState (watchChecked x86_64
        Impl.single (fun _ => .error []) "f".toList 1 1 (.noEbpf false fun _ => .timedCall))
        (World.init 1 (.single default))) := by rfl
  exact ⟨_, _, hrun, List.cons_ne_nil _ _,
    watch_encodes lawful_flatJson Impl.utf8Names_single hrun⟩

theorem stack_encodes_timedCall : ∃ evs t,
    stack x86_64 Impl.single "f".toList 1 1 .timedCall (.single default) = .ok evs t ∧
    evs ≠ [] ∧
    ∀ ev ∈ evs, ∃ s, encodeStack flatJson ev = .ok s ∧ decodeStack flatJson s = .ok ev := by
  exact ⟨_, _, stack_timedCall, List.cons_ne_nil _ _,
    stack_encodes lawful_flatJson Impl.utf8Names_single stack_timedCall⟩

/-! ## Texts of the other kind -/

/-- What is documented of a key that an object does not have. -/
structure Nlohmann.Defaults (lib : Nlohmann) : Prop where
  /-- The default is returned. -/
  value_absent : ∀ key τ v j, lib.set lib.null key τ v = .ok j →
    ∀ key' τ' default, key' ≠ key → lib.value j key' τ' default = .ok default

section Kinds

variable {lib : Nlohmann} {j j' : lib.Json} {f : Field} {l : List Field} {key : Text}
  {τ : FieldType} {default : τ.Value}

/-- Assigning other fields leaves a key without a value. -/
theorem Nlohmann.Lawful.value_setAll (h : lib.Lawful) (hobject : lib.isObject j)
    (hvalue : lib.value j key τ default = .ok default) (hkey : key ∉ l.map Field.key)
    (hall : lib.setAll j l = .ok j') : lib.value j' key τ default = .ok default := by
  induction l generalizing j with
  | nil =>
    obtain rfl := Except.ok.inj hall
    exact hvalue
  | cons f l ih =>
    rw [List.map_cons, List.mem_cons, not_or] at hkey
    obtain ⟨j₁, hset, hobject₁⟩ := h.set_ok j f.key f.type f.val (.inr hobject)
    rw [Nlohmann.setAll, hset] at hall
    refine ih hobject₁ ?_ hkey.2 hall
    rw [h.value_set_ne _ _ _ _ _ hobject hset _ _ _ hkey.1, hvalue]

/-- A text of these fields can be made, and a key that is not among them is read as the default. -/
theorem Nlohmann.Lawful.dump_setAll_absent (h : lib.Lawful) (hdefaults : lib.Defaults)
    (hl : ∀ g ∈ f :: l, g.ValidUtf8) (hkeys : ((f :: l).map Field.key).Nodup) :
    ∃ s j, (lib.setAll lib.null (f :: l) >>= lib.dump) = .ok s ∧ lib.parse s = .ok j ∧
      (∀ g ∈ f :: l, ∀ default, lib.value j g.key g.type default = .ok g.val) ∧
      ∀ key ∉ (f :: l).map Field.key, ∀ τ default, lib.value j key τ default = .ok default := by
  obtain ⟨j, hall, hj⟩ := h.holds_null.setAll h hl hkeys
  obtain ⟨s, hdump, hparse⟩ := h.parse_dump j hj.validUtf8
  refine ⟨s, j, ?_, hparse, hj.value, fun key hkey τ default => ?_⟩
  · rw [hall]
    exact hdump
  · rw [List.map_cons, List.mem_cons, not_or] at hkey
    obtain ⟨j₁, hset, hobject⟩ := h.set_ok lib.null f.key f.type f.val (.inl rfl)
    rw [Nlohmann.setAll, hset] at hall
    exact h.value_setAll hobject (hdefaults.value_absent _ _ _ _ hset _ _ _ hkey.1) hkey.2 hall

/-- **A decoder does not reject the texts of the other kind**: it reads the fields that both kinds
have, and the defaults of the others. -/
theorem decodes_other (h : lib.Lawful) (hdefaults : lib.Defaults) :
    (∀ ev : WatchEvent, ev.ValidUtf8 → ∃ s, encode lib ev = .ok s ∧
      decodeStack lib s = .ok ⟨ev.timestampNs, ev.funcName, []⟩) ∧
    ∀ ev : StackEvent, ev.ValidUtf8 → ∃ s, encodeStack lib ev = .ok s ∧
      decodeWatch lib s = .ok ⟨ev.timestampNs, 0, ev.funcName, [], [], false⟩ := by
  constructor
  · intro ev hev
    obtain ⟨s, j, hs, hparse, hvalue, habsent⟩ :=
      h.dump_setAll_absent hdefaults hev.fields ev.nodup_keys
    have hframes := habsent "frames".toList (by simp) .strings []
    simp only [List.forall_mem_cons] at hvalue
    obtain ⟨-, hts, -, hfunc, -⟩ := hvalue
    refine ⟨s, (encode_eq ev).trans hs, ?_⟩
    simp only [decodeStack, hparse, hts, hfunc, hframes, bind, Except.bind]
    rfl
  · intro ev hev
    obtain ⟨s, j, hs, hparse, hvalue, habsent⟩ :=
      h.dump_setAll_absent hdefaults hev.fields ev.nodup_keys
    have hduration := habsent "duration_ns".toList (by simp) .unsigned 0
    have hparams := habsent "params".toList (by simp) .strings []
    have hret := habsent "ret".toList (by simp) .string []
    have hexception := habsent "is_exception".toList (by simp) .boolean false
    simp only [List.forall_mem_cons] at hvalue
    obtain ⟨-, hts, hfunc, -⟩ := hvalue
    refine ⟨s, (encodeStack_eq ev).trans hs, ?_⟩
    simp only [decodeWatch, hparse, hts, hfunc, hduration, hparams, hret, hexception, bind,
      Except.bind]
    rfl

end Kinds

theorem defaults_flatJson : flatJson.Defaults where
  value_absent key τ v j h key' τ' default hne := by
    obtain rfl := Except.ok.inj h
    have hfind : List.find? (fun f : Field => f.key = key') [⟨key, τ, v⟩] = none := by
      simp [hne.symm]
    change FlatJson.value (.object [⟨key, τ, v⟩]) key' τ' default = _
    simp only [FlatJson.value, hfind]

theorem decodes_other_foo : ∃ s, encode flatJson .foo = .ok s ∧
    decodeStack flatJson s = .ok ⟨1234567890, "fixtures::Foo::bar".toList, []⟩ :=
  (decodes_other lawful_flatJson defaults_flatJson).1 .foo validUtf8_foo

end Uatu
