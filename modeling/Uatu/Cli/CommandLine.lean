import Uatu.Cli.Repl
import Uatu.Engine.Rendering
import Uatu.Foundations.Words
import Mathlib.Data.List.TakeWhile

/-!
# What can be asked of the engine

The calls of the engine that lines of input lead to (`callsOf_iff`): all those of which the function
is one word and the numbers are of 32 bits, in any order. So `trace` and `stack` can be asked of no
function with a blank in its name, as those of some templates have.
-/

namespace Uatu

open Words

/-- A call of a command of the engine. -/
structure EngineCall where
  command : Text
  func : Text
  count : ℤ
  timeoutMs : ℤ
  deriving DecidableEq

/-- It is an `int`. -/
def IsInt (v : ℤ) : Prop := -2 ^ 31 ≤ v ∧ v < 2 ^ 31

instance : DecidablePred IsInt := fun _ => inferInstanceAs (Decidable (_ ∧ _))

namespace EngineCall

/-- It can be typed. -/
structure Typeable (call : EngineCall) : Prop where
  command : call.command = "watch".toList ∨ call.command = "trace".toList ∨
    call.command = "stack".toList
  func : IsWord isSpace call.func
  count : IsInt call.count
  timeoutMs : IsInt call.timeoutMs

/-- A line that asks for it. -/
def line (call : EngineCall) : Text :=
  call.command ++ ' ' :: (call.func ++ ' ' ::
    (signedDecimal call.count ++ ' ' :: signedDecimal call.timeoutMs))

end EngineCall

/-! ## Numbers -/

theorem isInt_of_stoi {s : Text} {v : ℤ} (h : stoi s = .ok v) : IsInt v := by
  rw [stoi] at h
  dsimp only at h
  split_ifs at h with hempty hrange
  cases h
  exact hrange

theorem isWord_decimal (n : ℕ) : IsWord isSpace (decimal n) := by
  refine ⟨decimal_ne_nil n, fun c hc => ?_⟩
  have hdigit := isDigit_of_mem_decimal hc
  rw [isSpace, decide_eq_false_iff_not]
  intro hmem
  have hnot : [' ', '\t', '\n', '\x0b', '\x0c', '\r'].all (! ·.isDigit) = true := by decide
  have hc := List.all_eq_true.1 hnot c hmem
  simp [hdigit] at hc

theorem isWord_signedDecimal (v : ℤ) : IsWord isSpace (signedDecimal v) := by
  have hdecimal := isWord_decimal v.natAbs
  rw [signedDecimal]
  split_ifs
  · exact ⟨List.cons_ne_nil _ _, List.forall_mem_cons.2 ⟨by decide, hdecimal.2⟩⟩
  · exact hdecimal

/-- What has no separator at the front is not cut there. -/
theorem dropWhile_signedDecimal (v : ℤ) :
    (signedDecimal v).dropWhile isSpace = signedDecimal v := by
  obtain ⟨hne, hnot⟩ := isWord_signedDecimal v
  obtain ⟨c, s, hs⟩ := List.exists_cons_of_ne_nil hne
  rw [hs] at hnot ⊢
  exact List.dropWhile_cons_of_neg (by simp [hnot c (List.mem_cons_self ..)])

theorem splitSign_signedDecimal (v : ℤ) :
    splitSign (signedDecimal v) = (if v < 0 then -1 else 1, decimal v.natAbs) := by
  rw [signedDecimal]
  split_ifs
  · rfl
  · have hdigit : ∀ c ∈ decimal v.natAbs, c.isDigit := fun c hc => isDigit_of_mem_decimal hc
    unfold splitSign
    split
    next s hs => exact absurd (hdigit '-' (by simp [hs])) (by decide)
    next s hs => exact absurd (hdigit '+' (by simp [hs])) (by decide)
    next => rfl

theorem digitsVal_decimal (n : ℕ) : digitsVal (decimal n) = n := Nat.ofDigitChars_ten_toDigits

/-- The digits of a number are read as the number. -/
theorem stoi_signedDecimal {v : ℤ} (hv : IsInt v) : stoi (signedDecimal v) = .ok v := by
  have hdigits : (decimal v.natAbs).takeWhile Char.isDigit = decimal v.natAbs :=
    List.takeWhile_eq_self_iff.2 fun c hc => isDigit_of_mem_decimal hc
  have hval : (if v < 0 then -1 else 1) * (v.natAbs : ℤ) = v := by
    split_ifs <;> omega
  rw [stoi, dropWhile_signedDecimal, splitSign_signedDecimal]
  dsimp only
  rw [hdigits, if_neg (decimal_ne_nil _), digitsVal_decimal, hval]
  exact if_pos hv

/-! ## Lines -/

theorem parseLine_eq (line : Text) : parseLine line = words isSpace line := rfl

namespace EngineCall

theorem Typeable.isWord {call : EngineCall} (h : call.Typeable) : IsWord isSpace call.command := by
  rcases h.command with h | h | h <;> rw [h] <;> decide

theorem Typeable.parseLine_line {call : EngineCall} (h : call.Typeable) : parseLine call.line =
    [call.command, call.func, signedDecimal call.count, signedDecimal call.timeoutMs] := by
  rw [parseLine_eq, line, words_append_cons h.isWord rfl, words_append_cons h.func rfl,
    words_append_cons (isWord_signedDecimal _) rfl, words_eq_singleton (isWord_signedDecimal _)]

/-- Its line asks for it. -/
theorem Typeable.handle_line {call : EngineCall} {σ : Type} (h : call.Typeable)
    (engine : EngineCommands σ) (r : Repl σ) : Repl.handle engine call.line r =
      (none, Repl.dispatch engine call.command call.func call.count call.timeoutMs r) := by
  have hne : call.line ≠ [] := List.append_ne_nil_of_left_ne_nil h.isWord.1 _
  have hquit : ¬ (call.command = "quit".toList ∨ call.command = "exit".toList ∨
      call.command = "q".toList) := by
    rcases h.command with h | h | h <;> rw [h] <;> decide
  have hhelp : call.command ≠ "help".toList := by
    rcases h.command with h | h | h <;> rw [h] <;> decide
  rw [Repl.handle, if_neg hne, h.parseLine_line]
  dsimp only [List.getElem?_cons_zero, List.getElem?_cons_succ]
  rw [if_neg hquit, if_neg hhelp, Repl.numberOr, stoi_signedDecimal h.count, Repl.numberOr,
    stoi_signedDecimal h.timeoutMs]

end EngineCall

/-! ## What lines ask for -/

/-- A command that keeps its calls. -/
def recordCall (command : Text) : EngineCommand (List EngineCall) :=
  fun func count timeoutMs calls => (.ok [], calls ++ [⟨command, func, count, timeoutMs⟩])

/-- An engine that keeps the calls of its commands. -/
def recorder : EngineCommands (List EngineCall) where
  watch := recordCall "watch".toList
  trace := recordCall "trace".toList
  stack := recordCall "stack".toList

/-- The calls that the lines of the input lead to. -/
def callsOf (lines : List Text) : List EngineCall := (Repl.loop recorder lines ⟨[], []⟩).2.engine

namespace Repl

theorem engine_dispatch (command func : Text) (count timeoutMs : ℤ)
    (r : Repl (List EngineCall)) : (dispatch recorder command func count timeoutMs r).engine =
      r.engine ++ if command = "watch".toList ∨ command = "trace".toList ∨
        command = "stack".toList then [⟨command, func, count, timeoutMs⟩] else [] := by
  unfold dispatch
  split_ifs with hwatch htrace hstack hcommand
  all_goals simp_all [recorder, recordCall, print]

theorem isInt_of_numberOr {default v : ℤ} {token : Option Text} (hdefault : IsInt default)
    (h : numberOr default token = .ok v) : IsInt v := by
  cases token with
  | none => exact Except.ok.inj h ▸ hdefault
  | some token => exact isInt_of_stoi h

/-- A line leads to calls that can be typed. -/
theorem engine_handle (line : Text) (r : Repl (List EngineCall)) :
    ∃ calls, (handle recorder line r).2.engine = r.engine ++ calls ∧
      ∀ call ∈ calls, call.Typeable := by
  have hnone : ∃ calls, r.engine = r.engine ++ calls ∧ ∀ call ∈ calls, call.Typeable :=
    ⟨[], (List.append_nil _).symm, List.forall_mem_nil _⟩
  have hwords : ∀ word ∈ parseLine line, IsWord isSpace word := fun _ h => isWord_of_mem_words h
  unfold handle
  split_ifs with hempty
  · exact hnone
  cases hline : parseLine line with
  | nil => exact hnone
  | cons command args =>
    dsimp only
    split_ifs with hquit hhelp
    · exact hnone
    · exact hnone
    cases args with
    | nil => exact hnone
    | cons func numbers =>
      dsimp only
      cases hcount : numberOr 3 numbers[0]? with
      | error e => exact hnone
      | ok count =>
        cases htimeout : numberOr 3000 numbers[1]? with
        | error e => exact hnone
        | ok timeoutMs =>
          refine ⟨_, engine_dispatch command func count timeoutMs r, ?_⟩
          split_ifs with hcommand
          · refine List.forall_mem_singleton.2 ⟨hcommand, hwords func (by simp [hline]), ?_, ?_⟩
            · exact isInt_of_numberOr (by decide) hcount
            · exact isInt_of_numberOr (by decide) htimeout
          · exact List.forall_mem_nil _

theorem engine_loop (lines : List Text) (r : Repl (List EngineCall)) :
    ∃ calls, (loop recorder lines r).2.engine = r.engine ++ calls ∧
      ∀ call ∈ calls, call.Typeable := by
  induction lines generalizing r with
  | nil => exact ⟨[], (List.append_nil _).symm, List.forall_mem_nil _⟩
  | cons line lines ih =>
    obtain ⟨calls, hengine, hcalls⟩ := engine_handle line (r.print ["uatu> ".toList])
    rw [loop]
    rcases hhandle : handle recorder line (r.print ["uatu> ".toList]) with ⟨exit, r'⟩
    rw [hhandle] at hengine
    cases exit with
    | some e => exact ⟨calls, hengine, hcalls⟩
    | none =>
      obtain ⟨calls', hengine', hcalls'⟩ := ih r'
      refine ⟨calls ++ calls', ?_, List.forall_mem_append.2 ⟨hcalls, hcalls'⟩⟩
      have hfirst : r'.engine = r.engine ++ calls := hengine
      rw [← List.append_assoc, ← hfirst]
      exact hengine'

theorem engine_loop_line {calls : List EngineCall} (h : ∀ call ∈ calls, call.Typeable)
    (r : Repl (List EngineCall)) :
    (loop recorder (calls.map EngineCall.line) r).2.engine = r.engine ++ calls := by
  induction calls generalizing r with
  | nil => exact (List.append_nil _).symm
  | cons call calls ih =>
    obtain ⟨hcall, hcalls⟩ := List.forall_mem_cons.1 h
    rw [List.map_cons, loop, hcall.handle_line]
    change (loop recorder (calls.map EngineCall.line) _).2.engine = _
    rw [ih hcalls, engine_dispatch, if_pos hcall.command, List.append_assoc]
    rfl

end Repl

/-- **The calls of the engine that can be asked for** are those of a word and two numbers, in any
order. -/
theorem callsOf_iff (calls : List EngineCall) :
    (∃ lines, callsOf lines = calls) ↔ ∀ call ∈ calls, call.Typeable := by
  constructor
  · rintro ⟨lines, rfl⟩
    obtain ⟨calls, hengine, hcalls⟩ := Repl.engine_loop lines ⟨[], []⟩
    rw [callsOf, hengine]
    exact hcalls
  · exact fun h => ⟨calls.map EngineCall.line, Repl.engine_loop_line h ⟨[], []⟩⟩

end Uatu
