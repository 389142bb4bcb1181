import Uatu.Types
import Mathlib.Tactic.SplitIfs

/-!
# The read loop

The loop of `main` in `src/cli/main.cpp`. The three commands of the engine are a parameter: each
prints lines or ends with the message of an exception, and may change whatever state there is. Of
the exceptions only those of the commands are caught: a number that `std::stoi` does not accept ends
the program (`Repl.exit_iff`).
-/

namespace Uatu

/-- `std::isspace` in the C locale. -/
def isSpace (c : Char) : Bool := c ∈ [' ', '\t', '\n', '\x0b', '\x0c', '\r']

/-- `parse_line`. -/
def parseLine (line : Text) : List Text := (line.splitOnP isSpace).filter (· ≠ [])

/-- What `std::stoi` throws. -/
inductive StoiError
  | invalidArgument
  | outOfRange
  deriving DecidableEq

/-- The number that decimal digits stand for. -/
def digitsVal (digits : Text) : ℕ := digits.foldl (fun v c => 10 * v + (c.toNat - '0'.toNat)) 0

/-- The sign in front of a number, and what follows it. -/
def splitSign : Text → ℤ × Text
  | '-' :: s => (-1, s)
  | '+' :: s => (1, s)
  | s => (1, s)

/-- `std::stoi`, of an `int` of 32 bits: what follows the digits is ignored. -/
def stoi (s : Text) : Except StoiError ℤ :=
  let (sign, s) := splitSign (s.dropWhile isSpace)
  let digits := s.takeWhile Char.isDigit
  if digits = [] then .error .invalidArgument
  else
    let v := sign * digitsVal digits
    if -2 ^ 31 ≤ v ∧ v < 2 ^ 31 then .ok v else .error .outOfRange

/-- A command of the engine, by the name of a function, a count and a timeout: the lines it has the
program print, or the message of what it throws. -/
abbrev EngineCommand (σ : Type) := Text → ℤ → ℤ → σ → Except Text (List Text) × σ

/-- `AttachEngine`, as the loop uses it. -/
structure EngineCommands (σ : Type) where
  watch : EngineCommand σ
  trace : EngineCommand σ
  stack : EngineCommand σ

/-- The state of the engine, and what the program has printed. -/
structure Repl (σ : Type) where
  engine : σ
  output : List Text

/-- How the program leaves the loop. -/
inductive ReplExit
  | endOfInput
  | quit
  | uncaught (e : StoiError)
  deriving DecidableEq

namespace Repl

variable {σ : Type}

def print (r : Repl σ) (lines : List Text) : Repl σ := { r with output := r.output ++ lines }

def helpText : List Text :=
  ["  watch <func>  [count] [timeout_ms]".toList, "  trace <func>  [count] [timeout_ms]".toList,
    "  stack <func>  [count] [timeout_ms]".toList, "  quit".toList]

/-- The body of the `try` block. -/
def dispatch (engine : EngineCommands σ) (cmd func : Text) (count timeoutMs : ℤ) (r : Repl σ) :
    Repl σ :=
  let run (command : EngineCommand σ) : Repl σ :=
    match command func count timeoutMs r.engine with
    | (.ok lines, s) => print { r with engine := s } lines
    | (.error text, s) => print { r with engine := s } ["Error: ".toList ++ text]
  if cmd = "watch".toList then run engine.watch
  else if cmd = "trace".toList then run engine.trace
  else if cmd = "stack".toList then run engine.stack
  else r.print ["Unknown command: ".toList ++ cmd ++ " (type 'help')".toList]

/-- A number that may be left out. -/
def numberOr (default : ℤ) : Option Text → Except StoiError ℤ
  | some token => stoi token
  | none => .ok default

/-- One line: `some` when the program leaves the loop. -/
def handle (engine : EngineCommands σ) (line : Text) (r : Repl σ) : Option ReplExit × Repl σ :=
  if line = [] then (none, r) else
  match parseLine line with
  | [] => (none, r)
  | cmd :: args =>
    if cmd = "quit".toList ∨ cmd = "exit".toList ∨ cmd = "q".toList then (some .quit, r)
    else if cmd = "help".toList then (none, r.print helpText)
    else
      match args with
      | [] => (none, r.print ["Usage: ".toList ++ cmd ++ " <function_name>".toList])
      | func :: numbers =>
        match numberOr 3 numbers[0]? with
        | .error e => (some (.uncaught e), r)
        | .ok count =>
          match numberOr 3000 numbers[1]? with
          | .error e => (some (.uncaught e), r)
          | .ok timeoutMs => (none, dispatch engine cmd func count timeoutMs r)

/-- The loop, over the lines of the input. -/
def loop (engine : EngineCommands σ) : List Text → Repl σ → ReplExit × Repl σ
  | [], r => (.endOfInput, r.print ["uatu> ".toList])
  | line :: lines, r =>
    match handle engine line (r.print ["uatu> ".toList]) with
    | (some e, r) => (e, r)
    | (none, r) => loop engine lines r

/-! ## The lines that end the loop -/

/-- The line asks the program to end. -/
def Quits (line : Text) : Prop :=
  ∃ cmd ∈ (parseLine line).head?, cmd = "quit".toList ∨ cmd = "exit".toList ∨ cmd = "q".toList

instance : DecidablePred Quits := fun line => by
  unfold Quits
  infer_instance

/-- Where the line has a count or a timeout, it is a number; `help` does not look. -/
def Readable (line : Text) : Prop :=
  (parseLine line).head? = some "help".toList ∨
    ∀ token ∈ ((parseLine line).drop 2).take 2, ∃ v, stoi token = .ok v

variable (engine : EngineCommands σ) {line : Text} (r : Repl σ)

theorem handle_of_quits (h : Quits line) : handle engine line r = (some .quit, r) := by
  obtain ⟨cmd, hcmd, hquit⟩ := h
  obtain ⟨args, hline⟩ := List.head?_eq_some_iff.mp hcmd
  have hne : line ≠ [] := by
    rintro rfl
    cases hline
  rw [handle, if_neg hne, hline]
  exact if_pos hquit

/-- A number is left out, or it is read. -/
theorem numberOr_ok_iff (default : ℤ) (token : Option Text) :
    (∃ v, numberOr default token = .ok v) ↔ ∀ t ∈ token, ∃ v, stoi t = .ok v := by
  cases token with
  | none => simp [numberOr]
  | some token => simp [numberOr]

/-- The numbers of a line, at most two of them. -/
theorem forall_mem_take_two {P : Text → Prop} (numbers : List Text) :
    (∀ t ∈ numbers.take 2, P t) ↔ (∀ t ∈ numbers[0]?, P t) ∧ ∀ t ∈ numbers[1]?, P t := by
  match numbers with
  | [] => simp
  | [_] => simp
  | _ :: _ :: _ => simp

/-- A line that does not ask to end the program goes back to the prompt exactly if its numbers can
be read. -/
theorem handle_fst (h : ¬ Quits line) :
    (Readable line → (handle engine line r).1 = none) ∧
      (¬ Readable line → ∃ e, (handle engine line r).1 = some (.uncaught e)) := by
  unfold handle Readable
  split_ifs with hempty
  · subst hempty
    exact ⟨fun _ => rfl, fun hread => absurd (Or.inr (by simp [parseLine])) hread⟩
  unfold Quits at h
  generalize parseLine line = tokens at h ⊢
  match tokens with
  | [] => simp
  | [cmd] =>
    have hquit : ¬ (cmd = "quit".toList ∨ cmd = "exit".toList ∨ cmd = "q".toList) := by
      simpa using h
    simp only [if_neg hquit]
    split_ifs with hhelp <;> simp
  | cmd :: func :: numbers =>
    have hquit : ¬ (cmd = "quit".toList ∨ cmd = "exit".toList ∨ cmd = "q".toList) := by
      simpa using h
    simp only [if_neg hquit, List.head?_cons, Option.some.injEq, List.drop_succ_cons,
      List.drop_zero, forall_mem_take_two, ← numberOr_ok_iff 3 numbers[0]?,
      ← numberOr_ok_iff 3000 numbers[1]?]
    split_ifs with hhelp
    · exact ⟨fun _ => rfl, fun hread => absurd (.inl hhelp) hread⟩
    simp only [hhelp, false_or]
    rcases hcount : numberOr 3 numbers[0]? with e | count
    · simp
    rcases htimeout : numberOr 3000 numbers[1]? with e | timeoutMs
    · simp
    · simp

/-- One line of a run: the loop ends, as it should or by an exception, or it goes on. -/
theorem loop_cons_fst (line : Text) (lines : List Text) :
    (Quits line ∧ (loop engine (line :: lines) r).1 = .quit) ∨
      (¬ Quits line ∧ Readable line ∧
        ∃ r', (loop engine (line :: lines) r).1 = (loop engine lines r').1) ∨
      (¬ Quits line ∧ ¬ Readable line ∧
        ∃ e, (loop engine (line :: lines) r).1 = .uncaught e) := by
  by_cases hquits : Quits line
  · left
    refine ⟨hquits, ?_⟩
    rw [loop, handle_of_quits engine _ hquits]
  obtain ⟨hgoes, hends⟩ := handle_fst engine (r.print ["uatu> ".toList]) hquits
  rcases hhandle : handle engine line (r.print ["uatu> ".toList]) with ⟨exit, r'⟩
  rw [hhandle] at hgoes hends
  by_cases hread : Readable line
  · obtain rfl : exit = none := hgoes hread
    refine .inr (.inl ⟨hquits, hread, r', ?_⟩)
    rw [loop, hhandle]
  · obtain ⟨e, rfl⟩ : ∃ e, exit = some (.uncaught e) := hends hread
    refine .inr (.inr ⟨hquits, hread, e, ?_⟩)
    rw [loop, hhandle]

/-- The end of a run: by a line that asks for it, or at the end of the input. -/
def expectedExit (lines : List Text) : ReplExit :=
  if ∃ line ∈ lines, Quits line then .quit else .endOfInput

/-- **The program leaves its loop at the end of the input or on a line that asks for it, and not
otherwise, exactly if every count and timeout up to there is a number that `std::stoi` accepts.** -/
theorem exit_iff (engine : EngineCommands σ) (lines : List Text) (r : Repl σ) :
    (loop engine lines r).1 = expectedExit lines ↔
      ∀ line ∈ lines.takeWhile (¬ Quits ·), Readable line := by
  induction lines generalizing r with
  | nil => simp [loop, expectedExit]
  | cons line lines ih =>
    rcases loop_cons_fst engine r line lines with
      ⟨hquits, hexit⟩ | ⟨hquits, hread, r', hexit⟩ | ⟨hquits, hread, e, hexit⟩
    · have htake : (line :: lines).takeWhile (¬ Quits ·) = [] := by simp [hquits]
      rw [hexit, htake, expectedExit, if_pos ⟨line, List.mem_cons_self, hquits⟩]
      simp
    · have htake : (line :: lines).takeWhile (¬ Quits ·) =
          line :: lines.takeWhile (¬ Quits ·) := by simp [hquits]
      have hexpected : expectedExit (line :: lines) = expectedExit lines := by
        simp [expectedExit, hquits]
      rw [hexit, hexpected, ih, htake]
      simp [hread]
    · have hhead : line ∈ (line :: lines).takeWhile (¬ Quits ·) := by simp [hquits]
      rw [hexit]
      refine ⟨fun h => ?_, fun h => absurd (h line hhead) hread⟩
      unfold expectedExit at h
      split_ifs at h

/-- A command of the engine that prints nothing. -/
def silent : EngineCommand Unit := fun _ _ _ s => (.ok [], s)

/-- Three of them. -/
def silentEngine : EngineCommands Unit := ⟨silent, silent, silent⟩

/-- A count that is not a number ends the program. -/
theorem exit_watch_count :
    ¬ ∀ lines, (loop silentEngine lines ⟨(), []⟩).1 = expectedExit lines := by
  intro h
  have hexit := h ["watch f abc".toList]
  revert hexit
  decide

end Repl

end Uatu
