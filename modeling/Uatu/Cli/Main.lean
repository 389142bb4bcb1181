import Uatu.Cli.Repl
import Uatu.Engine.Format

/-!
# The program

`main` of `src/cli/main.cpp`, from its arguments to its exit status, with `resolve_exe` of the
constructor of `AttachEngine`. Nothing but the commands is in a `try` block, so a number that
`std::stoi` does not accept ends the program wherever it stands, and so does a process that there is
not; `main_exited_iff` says when it comes to an end of its own.
-/

namespace Uatu

/-! ## The arguments -/

/-- What the arguments come to. -/
inductive Arguments
  | version
  | pid (pid : ℤ)
  | uncaught (e : StoiError)
  deriving DecidableEq

/-- The argument asks for the version. -/
def IsVersion (arg : Text) : Prop := arg = "--version".toList ∨ arg = "-v".toList

instance : DecidablePred IsVersion := fun _ => inferInstanceAs (Decidable (_ ∨ _))

def pidOption : Text := "--pid".toList

/-- The loop over the arguments, with the process that has been named last. -/
def readArguments (pid : ℤ) : List Text → Arguments
  | [] => .pid pid
  | arg :: args =>
    if IsVersion arg then .version
    else if arg = pidOption then
      match args with
      | [] => .pid pid
      | value :: args =>
        match stoi value with
        | .ok pid => readArguments pid args
        | .error e => .uncaught e
    else readArguments pid args

/-- The arguments are passed over, the last process that they name is `q`. -/
inductive Passed : ℤ → List Text → ℤ → Prop
  | nil (pid : ℤ) : Passed pid [] pid
  | other {pid q : ℤ} {arg : Text} {args : List Text} (hversion : ¬ IsVersion arg)
      (hpid : arg ≠ pidOption) (h : Passed pid args q) : Passed pid (arg :: args) q
  | pid {pid p q : ℤ} {value : Text} {args : List Text} (hvalue : stoi value = .ok p)
      (h : Passed p args q) : Passed pid (pidOption :: value :: args) q

/-- What ends the loop over the arguments. -/
inductive Stops : ℤ → List Text → Arguments → Prop
  | nil (pid : ℤ) : Stops pid [] (.pid pid)
  /-- There is no value behind the option. -/
  | last (pid : ℤ) : Stops pid [pidOption] (.pid pid)
  | version {pid : ℤ} {arg : Text} {args : List Text} (hversion : IsVersion arg) :
      Stops pid (arg :: args) .version
  | uncaught {pid : ℤ} {value : Text} {args : List Text} {e : StoiError}
      (hvalue : stoi value = .error e) : Stops pid (pidOption :: value :: args) (.uncaught e)

theorem not_isVersion_pidOption : ¬ IsVersion pidOption := by decide

section ReadArguments

variable {pid p q : ℤ} {arg value : Text} {args pre : List Text} {result : Arguments}

theorem readArguments_version (h : IsVersion arg) :
    readArguments pid (arg :: args) = .version := by
  cases args <;> rw [readArguments, if_pos h]

theorem readArguments_other (hversion : ¬ IsVersion arg) (hpid : arg ≠ pidOption) :
    readArguments pid (arg :: args) = readArguments pid args := by
  cases args with
  | nil => simp only [readArguments, if_neg hversion, if_neg hpid]
  | cons value args => rw [readArguments, if_neg hversion, if_neg hpid]

theorem readArguments_ok (h : stoi value = .ok p) :
    readArguments pid (pidOption :: value :: args) = readArguments p args := by
  rw [readArguments, if_neg not_isVersion_pidOption, if_pos rfl, h]

theorem readArguments_error {e : StoiError} (h : stoi value = .error e) :
    readArguments pid (pidOption :: value :: args) = .uncaught e := by
  rw [readArguments, if_neg not_isVersion_pidOption, if_pos rfl, h]

theorem Passed.readArguments_append (h : Passed pid pre q) (args : List Text) :
    readArguments pid (pre ++ args) = readArguments q args := by
  induction h with
  | nil => rfl
  | other hversion hpid _ ih => rw [List.cons_append, readArguments_other hversion hpid, ih]
  | pid hvalue _ ih => rw [List.cons_append, List.cons_append, readArguments_ok hvalue, ih]

theorem Stops.readArguments_eq (h : Stops pid args result) : readArguments pid args = result := by
  cases h with
  | nil => rfl
  | last => rfl
  | version hversion => exact readArguments_version hversion
  | uncaught hvalue => exact readArguments_error hvalue

/-- One more argument is passed over. -/
theorem Passed.cons_of_other (hversion : ¬ IsVersion arg) (hpid : arg ≠ pidOption)
    (h : ∃ pre rest q, args = pre ++ rest ∧ Passed pid pre q ∧ Stops q rest result) :
    ∃ pre rest q, arg :: args = pre ++ rest ∧ Passed pid pre q ∧ Stops q rest result := by
  obtain ⟨pre, rest, q, rfl, hpassed, hstops⟩ := h
  exact ⟨arg :: pre, rest, q, rfl, .other hversion hpid hpassed, hstops⟩

theorem Passed.cons_of_pid (hvalue : stoi value = .ok p)
    (h : ∃ pre rest q, args = pre ++ rest ∧ Passed p pre q ∧ Stops q rest result) :
    ∃ pre rest q, pidOption :: value :: args = pre ++ rest ∧ Passed pid pre q ∧
      Stops q rest result := by
  obtain ⟨pre, rest, q, rfl, hpassed, hstops⟩ := h
  exact ⟨pidOption :: value :: pre, rest, q, rfl, .pid hvalue hpassed, hstops⟩

theorem exists_passed_stops (pid : ℤ) (args : List Text) :
    ∃ pre rest q, args = pre ++ rest ∧ Passed pid pre q ∧
      Stops q rest (readArguments pid args) := by
  have hstop : ∀ {pid args}, Stops pid args (readArguments pid args) →
      ∃ pre rest q, args = pre ++ rest ∧ Passed pid pre q ∧
        Stops q rest (readArguments pid args) :=
    fun {pid args} h => ⟨[], args, pid, rfl, .nil pid, h⟩
  induction pid, args using readArguments.induct with
  | case1 pid => exact hstop (.nil pid)
  | case2 pid arg args hversion =>
    exact hstop (readArguments_version hversion ▸ .version hversion)
  | case3 pid => exact hstop (.last pid)
  | case4 pid value args p hvalue _ ih =>
    rw [readArguments_ok hvalue]
    exact Passed.cons_of_pid hvalue ih
  | case5 pid value args e hvalue =>
    exact hstop (readArguments_error hvalue ▸ .uncaught hvalue)
  | case6 pid arg args hversion hpid ih =>
    rw [readArguments_other hversion hpid]
    exact Passed.cons_of_other hversion hpid ih

/-- **The arguments are read from the front**: some of them are passed over, and then something
ends the loop. -/
theorem readArguments_eq_iff :
    readArguments pid args = result ↔
      ∃ pre rest q, args = pre ++ rest ∧ Passed pid pre q ∧ Stops q rest result := by
  constructor
  · rintro rfl
    exact exists_passed_stops pid args
  · rintro ⟨pre, rest, q, rfl, hpassed, hstops⟩
    rw [hpassed.readArguments_append, hstops.readArguments_eq]

end ReadArguments

/-! ## The program -/

/-- What the program is run on: what `readlink` answers, what `list_processes` prints, and the
engine for a process and the path of its executable. -/
structure Host (σ : Type) where
  version : Text
  processes : List Text
  readlink : Text → Option Text
  engine : ℤ → Text → EngineCommands σ
  start : σ

/-- An exception that nothing catches. -/
inductive Uncaught
  | stoi (e : StoiError)
  | runtime (what : Text)
  deriving DecidableEq

/-- How the program ends. -/
inductive ProgramExit
  | exited (status : ℕ)
  | terminated (e : Uncaught)
  deriving DecidableEq

/-- `resolve_exe`: what `readlink` puts into a buffer of 511 bytes. -/
def resolveExe (readlink : Text → Option Text) (pid : ℤ) : Except Text Text :=
  let link := "/proc/".toList ++ signedDecimal pid ++ "/exe".toList
  match readlink link with
  | none => .error ("cannot resolve ".toList ++ link)
  | some path =>
    if path = [] then .error ("cannot resolve ".toList ++ link) else .ok (path.take 511)

section Main

variable {σ : Type}

/-- What is printed without a process. -/
def usage (host : Host σ) : List Text :=
  ["uatu ".toList ++ host.version, "Usage: uatu --pid <PID>".toList, [],
    "Running processes:".toList] ++ host.processes

/-- What is printed before anything is known of the process. -/
def banner (pid : ℤ) : List Text :=
  ["uatu ".toList ++ signedDecimal pid ++ " attached".toList,
    "Commands: watch <func>  trace <func>  stack <func>  help  quit".toList, []]

/-- `main`: how it ends, and what it has printed. -/
def main (host : Host σ) (args lines : List Text) : ProgramExit × List Text :=
  match readArguments (-1) args with
  | .version => (.exited 0, ["uatu ".toList ++ host.version])
  | .uncaught e => (.terminated (.stoi e), [])
  | .pid pid =>
    if pid < 0 then (.exited 1, usage host)
    else
      match resolveExe host.readlink pid with
      | .error text => (.terminated (.runtime text), banner pid)
      | .ok exePath =>
        match Repl.loop (host.engine pid exePath) lines ⟨host.start, banner pid⟩ with
        | (.uncaught e, r) => (.terminated (.stoi e), r.output)
        | (_, r) => (.exited 0, r.output ++ [[], "Detached. Bye.".toList])

/-- The arguments ask for the version before any of them cannot be read. -/
def AsksVersion (args : List Text) : Prop :=
  ∃ pre flag post q, args = pre ++ flag :: post ∧ Passed (-1) pre q ∧ IsVersion flag

/-- The arguments name a process, `-1` if they name none. -/
def NamesProcess (args : List Text) (pid : ℤ) : Prop :=
  Passed (-1) args pid ∨ ∃ pre, args = pre ++ [pidOption] ∧ Passed (-1) pre pid

theorem readArguments_eq_version_iff {args : List Text} :
    readArguments (-1) args = .version ↔ AsksVersion args := by
  rw [readArguments_eq_iff]
  constructor
  · rintro ⟨pre, rest, q, rfl, hpassed, hstops⟩
    cases hstops with
    | version hversion => exact ⟨pre, _, _, q, rfl, hpassed, hversion⟩
  · rintro ⟨pre, flag, post, q, rfl, hpassed, hversion⟩
    exact ⟨pre, flag :: post, q, rfl, hpassed, .version hversion⟩

theorem readArguments_eq_pid_iff {args : List Text} {pid : ℤ} :
    readArguments (-1) args = .pid pid ↔ NamesProcess args pid := by
  rw [readArguments_eq_iff]
  constructor
  · rintro ⟨pre, rest, q, rfl, hpassed, hstops⟩
    cases hstops with
    | nil =>
      rw [List.append_nil]
      exact .inl hpassed
    | last => exact .inr ⟨pre, rfl, hpassed⟩
  · rintro (hpassed | ⟨pre, rfl, hpassed⟩)
    · exact ⟨args, [], pid, (List.append_nil _).symm, hpassed, .nil pid⟩
    · exact ⟨pre, [pidOption], pid, rfl, hpassed, .last pid⟩

/-- The loop over the lines ends by an exception exactly if there is a number up to its end that
cannot be read. -/
theorem Repl.loop_uncaught_iff (engine : EngineCommands σ) (lines : List Text) (r : Repl σ) :
    (∃ e, (loop engine lines r).1 = .uncaught e) ↔
      ¬ ∀ line ∈ lines.takeWhile (¬ Quits ·), Readable line := by
  induction lines generalizing r with
  | nil => simp [loop]
  | cons line lines ih =>
    rcases loop_cons_fst engine r line lines with
      ⟨hquits, hexit⟩ | ⟨hquits, hread, r', hexit⟩ | ⟨hquits, hread, e, hexit⟩
    · rw [hexit]
      simp [hquits]
    · rw [hexit, ih]
      simp [hquits, hread]
    · rw [hexit]
      simp [hquits, hread]

/-- With a process that there is, the program ends as its loop does. -/
theorem main_session {host : Host σ} {args : List Text} {pid : ℤ} {exePath : Text}
    (hargs : readArguments (-1) args = .pid pid) (hpid : 0 ≤ pid)
    (hexe : resolveExe host.readlink pid = .ok exePath) (lines : List Text) :
    ((main host args lines).1 = .exited 0 ↔
      ∀ line ∈ lines.takeWhile (¬ Repl.Quits ·), Repl.Readable line) ∧
    (main host args lines).1 ≠ .exited 1 := by
  have hloop := Repl.loop_uncaught_iff (host.engine pid exePath) lines ⟨host.start, banner pid⟩
  unfold main
  simp only [hargs, if_neg hpid.not_gt, hexe]
  rcases hrun : Repl.loop (host.engine pid exePath) lines ⟨host.start, banner pid⟩ with
    ⟨exit, r⟩
  rw [hrun] at hloop
  have hone : ProgramExit.exited 0 ≠ .exited 1 := by decide
  cases exit with
  | endOfInput =>
    have hread := by_contra fun h => by simpa using hloop.2 h
    exact ⟨⟨fun _ => hread, fun _ => rfl⟩, hone⟩
  | quit =>
    have hread := by_contra fun h => by simpa using hloop.2 h
    exact ⟨⟨fun _ => hread, fun _ => rfl⟩, hone⟩
  | uncaught e =>
    have hnot := hloop.1 ⟨e, rfl⟩
    have hend : ∀ n, ProgramExit.terminated (.stoi e) ≠ .exited n := fun n h => by cases h
    exact ⟨⟨fun h => absurd h (hend 0), fun h => absurd h hnot⟩, hend 1⟩

/-- `main` returns 0 or 1, or is ended by an exception. -/
theorem main_cases (host : Host σ) (args lines : List Text) :
    (main host args lines).1 = .exited 0 ∨ (main host args lines).1 = .exited 1 ∨
      ∃ e, (main host args lines).1 = .terminated e := by
  unfold main
  cases readArguments (-1) args with
  | version => exact .inl rfl
  | uncaught e => exact .inr (.inr ⟨_, rfl⟩)
  | pid pid =>
    dsimp only
    split
    · exact .inr (.inl rfl)
    · split
      · exact .inr (.inr ⟨_, rfl⟩)
      · split
        · exact .inr (.inr ⟨_, rfl⟩)
        · exact .inl rfl

/-- **When the program ends of its own.** It returns 0 for the version, or at the end of a session
with a process that there is, in which every number can be read; it returns 1 if no process is
named. Every other run is ended by an exception. -/
theorem main_exited_iff (host : Host σ) (args lines : List Text) :
    ((main host args lines).1 = .exited 0 ↔ AsksVersion args ∨
      ∃ pid exePath, NamesProcess args pid ∧ 0 ≤ pid ∧
        resolveExe host.readlink pid = .ok exePath ∧
        ∀ line ∈ lines.takeWhile (¬ Repl.Quits ·), Repl.Readable line) ∧
    ((main host args lines).1 = .exited 1 ↔ ∃ pid < 0, NamesProcess args pid) ∧
    ((main host args lines).1 = .exited 0 ∨ (main host args lines).1 = .exited 1 ∨
      ∃ e, (main host args lines).1 = .terminated e) := by
  rw [← and_assoc]
  refine ⟨?_, main_cases host args lines⟩
  simp only [← readArguments_eq_version_iff, ← readArguments_eq_pid_iff]
  cases hargs : readArguments (-1) args with
  | version => simp [main, hargs]
  | uncaught e => simp [main, hargs]
  | pid pid =>
    by_cases hneg : pid < 0
    · simp [main, hargs, hneg, hneg.not_ge]
    have hpid : 0 ≤ pid := not_lt.1 hneg
    cases hexe : resolveExe host.readlink pid with
    | error text => simp [main, hargs, hneg, hexe]
    | ok exePath =>
      obtain ⟨hzero, hone⟩ := main_session hargs hpid hexe lines
      rw [hzero]
      simp [hone, hpid, hexe]

end Main

end Uatu
