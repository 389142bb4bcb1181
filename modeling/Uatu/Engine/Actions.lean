import Uatu.Foundations.Lifetimes
import Uatu.Engine.Loop

/-!
# What a command does, in order

A command of the engine as the list of its `Action`s: what it does to the stop flag, the points at
which it attaches and begins to wait, and the resources of the BPF library it acquires and releases.
`Command.actions` is this list for a sampling command: it clears the flag and may attach and wait,
and then each iteration tests the flag and, unless it is set, may wait
(`Command.prepareActions_cases`, `Command.loopActions_cases`).
-/

namespace Uatu

open Lifetimes Throwing

/-- What `UprobeLoader` owns. -/
inductive Resource
  | object
  | ring
  /-- The link that was created after this many others. -/
  | link (n : ℕ)
  deriving DecidableEq

inductive Action
  /-- `s_stop_flag.store(false)`. -/
  | clearFlag
  /-- `s_stop_flag.load()`, and what it returns. -/
  | testFlag (stop : Bool)
  /-- `PTRACE_ATTACH`. -/
  | attach
  /-- `waitpid_timeout`. -/
  | wait
  /-- `UprobeLoader::poll`. -/
  | poll
  | move (m : Move Resource)
  deriving DecidableEq

/-- What an action does to the resources. -/
def Action.move? : Action → Option (Move Resource)
  | .move m => some m
  | _ => none

namespace Command

variable {R V ν : Type} (C : Command R V ν)

/-- The actions up to the first wait. -/
def prepareActions (impl : Impl) (funcName : Text) (env : Script R) : List Action :=
  .clearFlag ::
    match impl.finder with
    | .error _ => []
    | .ok finder =>
      match finder.find funcName with
      | none => []
      | some info =>
        if info.address = 0 then []
        else if env.attachError.isSome then [.attach] else [.attach, .wait]

/-- The actions of an iteration. -/
def roundActions (c : Target) (deadline : ℤ) (r : Round R) (s : Session R V ν) : List Action :=
  if ¬ (s.results.length : ℤ) < c.count then []
  else if r.stopFlag then [.testFlag true]
  else if deadline ≤ r.now then [.testFlag false]
  else if deadline ≤ r.now2 then [.testFlag false]
  else [.testFlag false, .wait]

/-- The actions of the loop. The test with which it ends when the rounds are used up decides
nothing, and is left out. -/
def loopActions (c : Target) (deadline : ℤ) : List (Round R) → Session R V ν → List Action
  | [], _ => []
  | r :: rounds, s =>
    roundActions c deadline r s ++
      match C.round c deadline r s with
      | .ok none t => loopActions c deadline rounds t
      | _ => []

/-- The actions of a command. -/
def actions (impl : Impl) (funcName : Text) (count timeoutMs : ℤ) (env : Script R)
    (s : Session R V ν) : List Action :=
  prepareActions impl funcName env ++
    match C.prepare impl funcName count timeoutMs env s with
    | .error _ _ => []
    | .ok (c, deadline) t =>
      match C.arm c env t with
      | .error _ _ => []
      | .ok _ u => C.loopActions c deadline env.rounds u

variable {C} {c : Target} {deadline : ℤ} {impl : Impl} {funcName : Text} {count timeoutMs : ℤ}
  {env : Script R} {s : Session R V ν}

variable (impl funcName env) in
/-- A command clears the flag; then it may attach, and then wait. -/
theorem prepareActions_cases : prepareActions impl funcName env = [.clearFlag] ∨
    prepareActions impl funcName env = [.clearFlag, .attach] ∨
    prepareActions impl funcName env = [.clearFlag, .attach, .wait] := by
  unfold prepareActions
  split
  · exact .inl rfl
  · split
    · exact .inl rfl
    · split_ifs
      · exact .inl rfl
      · exact .inr (.inl rfl)
      · exact .inr (.inr rfl)

variable (c deadline s) in
/-- An iteration tests the flag, if it does anything, and waits if the flag is not set. -/
theorem roundActions_cases (r : Round R) : roundActions c deadline r s = [] ∨
    roundActions c deadline r s = [.testFlag true] ∨
    roundActions c deadline r s = [.testFlag false] ∨
    roundActions c deadline r s = [.testFlag false, .wait] := by
  unfold roundActions
  by_cases hcount : (s.results.length : ℤ) < c.count
  · rw [if_neg (not_not.2 hcount)]
    by_cases hstop : r.stopFlag = true
    · exact .inr (.inl (if_pos hstop))
    · rw [if_neg hstop]
      split
      · exact .inr (.inr (.inl rfl))
      · split
        · exact .inr (.inr (.inl rfl))
        · exact .inr (.inr (.inr rfl))
  · exact .inl (if_pos hcount)

/-- An iteration that finds the flag set leaves the loop. -/
theorem round_of_stop {r : Round R} (h : roundActions c deadline r s = [.testFlag true]) :
    C.round c deadline r s = .ok (some .stopFlag) s := by
  unfold roundActions at h
  by_cases hcount : (s.results.length : ℤ) < c.count
  · rw [if_neg (not_not.2 hcount)] at h
    by_cases hstop : r.stopFlag = true
    · have hget : (get : Engine R V ν _) s = .ok s s := rfl
      rw [round, bind_ok hget, if_neg (not_not.2 hcount), if_pos hstop]
      rfl
    · rw [if_neg hstop] at h
      split_ifs at h <;> cases h
  · rw [if_pos hcount] at h
    cases h

variable (C c deadline s) in
/-- **The actions of the loop** are those of its first iteration, which may test the flag and then
wait, and those of the others; a test that finds the flag set is the last of them. -/
theorem loopActions_cases (r : Round R) (rounds : List (Round R)) :
    C.loopActions c deadline (r :: rounds) s = [.testFlag true] ∨
    ∃ l rest, C.loopActions c deadline (r :: rounds) s = l ++ rest ∧
      (l = [] ∨ l = [.testFlag false] ∨ l = [.testFlag false, .wait]) ∧
      (rest = [] ∨ ∃ t, rest = C.loopActions c deadline rounds t) := by
  have hrest : ∀ x : EStateM.Result Exception (Session R V ν) (Option LoopExit),
      (match x with
        | .ok none t => C.loopActions c deadline rounds t
        | _ => []) = [] ∨
      ∃ t, (match x with
        | .ok none t => C.loopActions c deadline rounds t
        | _ => []) = C.loopActions c deadline rounds t := by
    rintro (⟨_ | _, t⟩ | _)
    · exact .inr ⟨t, rfl⟩
    · exact .inl rfl
    · exact .inl rfl
  rw [loopActions]
  rcases roundActions_cases c deadline s r with heq | heq | heq | heq
  · exact .inr ⟨_, _, rfl, .inl heq, hrest _⟩
  · exact .inl (by rw [heq, round_of_stop heq]; rfl)
  · exact .inr ⟨_, _, rfl, .inr (.inl heq), hrest _⟩
  · exact .inr ⟨_, _, rfl, .inr (.inr heq), hrest _⟩

variable (C impl funcName count timeoutMs env s) in
/-- The actions of a command are those up to the first wait and those of the loop, if there is
one. -/
theorem actions_cases : ∃ rest,
    C.actions impl funcName count timeoutMs env s = prepareActions impl funcName env ++ rest ∧
      (rest = [] ∨ ∃ c deadline u, rest = C.loopActions c deadline env.rounds u) := by
  refine ⟨_, rfl, ?_⟩
  split
  · exact .inl rfl
  · split
    · exact .inl rfl
    · exact .inr ⟨_, _, _, rfl⟩

theorem move?_loopActions {rounds : List (Round R)} {a : Action}
    (h : a ∈ C.loopActions c deadline rounds s) : a.move? = none := by
  induction rounds generalizing s with
  | nil => cases h
  | cons r rounds ih =>
    rcases C.loopActions_cases c deadline s r rounds with heq | ⟨l, rest, heq, hl, hrest⟩
    · rw [heq] at h
      cases List.mem_singleton.1 h
      rfl
    · rw [heq] at h
      rcases List.mem_append.1 h with h | h
      · rcases hl with rfl | rfl | rfl
        · cases h
        · cases List.mem_singleton.1 h
          rfl
        · rcases List.mem_pair.1 h with rfl | rfl <;> rfl
      · rcases hrest with rfl | ⟨t, rfl⟩
        · cases h
        · exact ih h

/-- A command acquires none of the resources. -/
theorem move?_actions {a : Action} (h : a ∈ C.actions impl funcName count timeoutMs env s) :
    a.move? = none := by
  obtain ⟨rest, hactions, hrest⟩ := C.actions_cases impl funcName count timeoutMs env s
  rw [hactions] at h
  rcases List.mem_append.1 h with h | h
  · rcases prepareActions_cases impl funcName env with heq | heq | heq <;> rw [heq] at h
    · cases List.mem_singleton.1 h
      rfl
    · rcases List.mem_pair.1 h with rfl | rfl <;> rfl
    · simp only [List.mem_cons, List.not_mem_nil, or_false] at h
      rcases h with rfl | rfl | rfl <;> rfl
  · rcases hrest with rfl | ⟨c, deadline, u, rfl⟩
    · cases h
    · exact move?_loopActions h

end Command

end Uatu
