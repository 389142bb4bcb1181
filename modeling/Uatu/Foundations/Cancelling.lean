import Mathlib.Data.List.Basic

/-!
# Programs that can be asked to stop

A program clears a flag when it starts and tests it from time to time; a request, which can come at
any moment, sets it. The actions of the program are of any type; what they are to the flag is their
`Kind`. A run is a list of `Moment`s, in which the tests return what the flag holds (`Agrees`).

A *stint* is what the program does from one clearing of the flag to the next. If each of them ends
soon after it has found the flag set (`Heeds`), a request ends the program exactly if the flag is
tested before anything else is begun, and the stint is the last one (`Stints.ends_iff`).
-/

namespace Cancelling

/-- What an action is to the flag. -/
inductive Kind
  /-- The flag is cleared. -/
  | clear
  /-- The flag is tested, and this is found. -/
  | test (set : Bool)
  /-- Something is begun that should not be begun after a request. -/
  | go
  | other
  deriving DecidableEq

variable {α : Type}

/-- What happens in a run. -/
inductive Moment (α : Type)
  | request
  | act (a : α)

/-- The action, unless it is a request. -/
def Moment.action? : Moment α → Option α
  | .request => none
  | .act a => some a

/-- The actions of a run. -/
def acts (l : List (Moment α)) : List α := l.filterMap Moment.action?

variable (kind : α → Kind)

/-- What the flag holds after it. -/
def Moment.store (flag : Bool) : Moment α → Bool
  | .request => true
  | .act a => if kind a = .clear then false else flag

/-- If it is a test, it returns what the flag holds. -/
def Moment.Sees (flag : Bool) : Moment α → Prop
  | .request => True
  | .act a => kind a ≠ .test !flag

instance (flag : Bool) : DecidablePred (Moment.Sees kind flag)
  | .request => inferInstanceAs (Decidable True)
  | .act _ => inferInstanceAs (Decidable (_ ≠ _))

/-- Every test returns what the flag holds, from this value on. -/
def Agrees : Bool → List (Moment α) → Prop
  | _, [] => True
  | flag, m :: l => m.Sees kind flag ∧ Agrees (m.store kind flag) l

instance decidableAgrees : ∀ flag l, Decidable (Agrees kind flag l)
  | _, [] => inferInstanceAs (Decidable True)
  | flag, m :: l => @instDecidableAnd _ _ _ (decidableAgrees (m.store kind flag) l)

/-! ## What may happen after a request -/

/-- Nothing is begun, and the flag is left alone. -/
def Still (l : List α) : Prop := ∀ a ∈ l, kind a = .other

/-- Nothing is begun or cleared, and the flag is tested once at most. -/
def Ends : List α → Prop
  | [] => True
  | a :: l =>
    match kind a with
    | .clear => False
    | .test _ => Still kind l
    | .go => False
    | .other => Ends l

/-- The flag is tested before anything is begun or cleared. -/
def TestsFirst : List α → Prop
  | [] => True
  | a :: l =>
    match kind a with
    | .clear => False
    | .test _ => True
    | .go => False
    | .other => TestsFirst l

/-- How often the flag is cleared. -/
def clears (l : List α) : ℕ := l.countP (kind · = .clear)

/-! ## Stints -/

/-- The flag is not cleared, and when it is found set nothing is begun any more. -/
def Heeds : List α → Prop
  | [] => True
  | a :: l =>
    match kind a with
    | .clear => False
    | .test true => Still kind l
    | .test false => Heeds l
    | .go => Heeds l
    | .other => Heeds l

/-- The flag is neither cleared nor found set. -/
def Calm (l : List α) : Prop := ∀ a ∈ l, kind a ≠ .clear ∧ kind a ≠ .test true

instance (l : List α) : Decidable (Calm kind l) := inferInstanceAs (Decidable (∀ a ∈ l, _ ∧ _))

/-- So many stints. -/
inductive Stints : ℕ → List α → Prop
  | nil : Stints 0 []
  | cons {n : ℕ} {c : α} {l rest : List α} (hclear : kind c = .clear) (hheeds : Heeds kind l)
      (hrest : Stints n rest) : Stints (n + 1) (c :: (l ++ rest))

/-- A stint in which the flag may be found set, or one in which it is not and so many others. -/
inductive Nests (n : ℕ) : List α → Prop
  | single {c : α} {l : List α} (hclear : kind c = .clear) (hheeds : Heeds kind l) :
      Nests n (c :: l)
  | nested {c : α} {l rest : List α} (hclear : kind c = .clear) (hcalm : Calm kind l)
      (hrest : Stints kind n rest) : Nests n (c :: (l ++ rest))

variable {kind} {l l' : List α} {a : α} {n : ℕ}

theorem still_nil : Still kind [] := List.forall_mem_nil _

theorem still_append : Still kind (l ++ l') ↔ Still kind l ∧ Still kind l' := by
  simp only [Still, List.forall_mem_append]

theorem calm_nil : Calm kind [] := List.forall_mem_nil _

theorem calm_append : Calm kind (l ++ l') ↔ Calm kind l ∧ Calm kind l' := by
  simp only [Calm, List.forall_mem_append]

theorem Still.calm (h : Still kind l) : Calm kind l := by
  intro a ha
  rw [h a ha]
  exact ⟨nofun, nofun⟩

theorem Calm.heeds_append (h : Calm kind l) : Heeds kind (l ++ l') ↔ Heeds kind l' := by
  induction l with
  | nil => rfl
  | cons a l ih =>
    obtain ⟨ha, hl⟩ := List.forall_mem_cons.1 h
    rw [List.cons_append, Heeds, ih hl]
    split
    next hk => exact absurd hk ha.1
    next hk => exact absurd hk ha.2
    all_goals rfl

theorem Calm.heeds (h : Calm kind l) : Heeds kind l := by
  rw [← List.append_nil l, h.heeds_append]
  trivial

/-- What is still may follow. -/
theorem Heeds.append (h : Heeds kind l) (h' : Still kind l') : Heeds kind (l ++ l') := by
  induction l with
  | nil => exact h'.calm.heeds
  | cons a l ih =>
    rw [Heeds] at h
    rw [List.cons_append, Heeds]
    split at h
    · exact h
    · exact still_append.2 ⟨h, h'⟩
    all_goals exact ih h

theorem Heeds.of_cons (h : Heeds kind (a :: l)) : Heeds kind l := by
  rw [Heeds] at h
  split at h
  · exact h.elim
  · exact (show Still kind l from h).calm.heeds
  all_goals exact h

theorem Heeds.of_suffix (h : Heeds kind l) (hs : l' <:+ l) : Heeds kind l' := by
  induction l with
  | nil =>
    rw [List.suffix_nil.1 hs]
    trivial
  | cons a l ih =>
    obtain rfl | hs := List.suffix_cons_iff.1 hs
    · exact h
    · exact ih h.of_cons hs

theorem clears_append : clears kind (l ++ l') = clears kind l + clears kind l' :=
  List.countP_append

theorem clears_cons_clear (h : kind a = .clear) : clears kind (a :: l) = clears kind l + 1 :=
  List.countP_cons_of_pos (decide_eq_true h)

theorem Calm.clears (h : Calm kind l) : clears kind l = 0 :=
  List.countP_eq_zero.2 fun a ha hclear => (h a ha).1 (of_decide_eq_true hclear)

theorem Heeds.clears (h : Heeds kind l) : clears kind l = 0 := by
  induction l with
  | nil => rfl
  | cons a l ih =>
    have hl := ih h.of_cons
    have ha : ¬ kind a = .clear := by
      intro ha
      rw [Heeds, ha] at h
      exact h
    rw [Cancelling.clears, List.countP_cons_of_neg (by simpa using ha)]
    exact hl

theorem Stints.clears (h : Stints kind n l) : clears kind l = n := by
  induction h with
  | nil => rfl
  | cons hclear hheeds _ ih =>
    rw [clears_cons_clear hclear, clears_append, hheeds.clears, ih, Nat.zero_add]

/-- Stints begin with a clearing. -/
theorem Stints.clear_of_cons (h : Stints kind n (a :: l)) : kind a = .clear := by
  generalize heq : a :: l = log at h
  cases h with
  | nil => cases heq
  | cons hclear =>
    obtain ⟨rfl, -⟩ := List.cons.inj heq
    exact hclear

/-- What has no clearing in it, at the end, is of the last stint. -/
theorem Stints.heeds_of_append (h : Stints kind n (l ++ l'))
    (hnone : Cancelling.clears kind l' = 0) : Heeds kind l' := by
  generalize heq : l ++ l' = log at h
  induction h generalizing l with
  | nil =>
    rw [(List.append_eq_nil_iff.1 heq).2]
    trivial
  | @cons n c body rest hclear hheeds hrest ih =>
    cases l with
    | nil =>
      subst heq
      rw [clears_cons_clear hclear] at hnone
      cases hnone
    | cons c' l =>
      obtain ⟨as, rfl, rfl⟩ | ⟨cs, rfl, rfl⟩ :=
        List.append_eq_append_iff.1 (List.cons.inj heq).2.symm
      · exact ih rfl
      · -- nothing is cleared after it, so no other stint follows
        rw [clears_append, hrest.clears] at hnone
        cases hrest with
        | nil =>
          rw [List.append_nil]
          exact hheeds.of_suffix (List.suffix_append ..)
        | cons => cases Nat.eq_zero_of_add_eq_zero_left hnone

/-! ## After a request -/

variable {flag : Bool} {m m' : List (Moment α)}

theorem acts_append : acts (m ++ m') = acts m ++ acts m' := List.filterMap_append

theorem acts_cons_request : acts (.request :: m) = acts m := rfl

theorem acts_cons_act : acts (.act a :: m) = a :: acts m := rfl

/-- After a request the flag is set. -/
theorem agrees_after_request (h : Agrees kind flag (m ++ .request :: m')) :
    Agrees kind true m' := by
  induction m generalizing flag with
  | nil => exact h.2
  | cons x m ih => exact ih h.2

theorem Ends.testsFirst (h : Ends kind l) : TestsFirst kind l := by
  induction l with
  | nil => trivial
  | cons a l ih =>
    rw [Ends] at h
    rw [TestsFirst]
    split at h
    · exact h
    · trivial
    · exact h
    · exact ih h

theorem Ends.clears (h : Ends kind l) : clears kind l = 0 := by
  induction l with
  | nil => rfl
  | cons a l ih =>
    rw [Ends] at h
    split at h
    next => exact h.elim
    next hk =>
      rw [Cancelling.clears, List.countP_cons_of_neg (by simp [hk])]
      exact (show Still kind l from h).calm.clears
    next => exact h.elim
    next hk =>
      rw [Cancelling.clears, List.countP_cons_of_neg (by simp [hk])]
      exact ih h

/-- **A stint ends** if it next tests the flag, once that is set. -/
theorem ends_of_testsFirst (hheeds : Heeds kind (acts m)) (htests : TestsFirst kind (acts m))
    (hagrees : Agrees kind true m) : Ends kind (acts m) := by
  induction m with
  | nil => trivial
  | cons x m ih =>
    cases x with
    | request => exact ih hheeds htests hagrees.2
    | act a =>
      rw [acts_cons_act] at *
      rw [TestsFirst] at htests
      rw [Heeds] at hheeds
      obtain ⟨hsees, hagrees⟩ := hagrees
      rw [Ends]
      cases hk : kind a with
      | clear => simp only [hk] at htests
      | go => simp only [hk] at htests
      | other =>
        simp only [hk] at htests hheeds
        rw [Moment.store, hk, if_neg (by decide)] at hagrees
        exact ih hheeds htests hagrees
      | test b =>
        cases b with
        | false => exact absurd hk hsees
        | true =>
          simp only [hk] at hheeds
          exact hheeds

/-- Where the flag is not found set, it is not tested before it is cleared. -/
theorem not_testsFirst {c : α} (hclear : kind c = .clear) (hcalm : Calm kind l)
    (hagrees : Agrees kind true m) (hacts : acts m = l ++ c :: l') :
    ¬ TestsFirst kind (acts m) := by
  induction m generalizing l with
  | nil => cases (List.append_eq_nil_iff.1 hacts.symm).2
  | cons x m ih =>
    cases x with
    | request => exact ih hcalm hagrees.2 hacts
    | act a =>
      obtain ⟨hsees, hagrees⟩ := hagrees
      rw [acts_cons_act] at *
      rw [TestsFirst]
      cases l with
      | nil =>
        obtain ⟨rfl, -⟩ := List.cons.inj hacts
        rw [hclear]
        exact not_false
      | cons b l =>
        obtain ⟨rfl, htail⟩ := List.cons.inj hacts
        obtain ⟨ha, hl⟩ := List.forall_mem_cons.1 hcalm
        cases hk : kind a with
        | clear => exact not_false
        | go => exact not_false
        | other =>
          rw [Moment.store, hk, if_neg (by decide)] at hagrees
          exact ih hl hagrees htail
        | test b =>
          cases b with
          | false => exact absurd hk hsees
          | true => exact absurd hk ha.2

/-- **A request ends the program** exactly if the flag is tested before anything is begun, and the
stint is the first one, in which the flag is not cleared again if it is found set, or the last. -/
theorem Nests.ends_iff {log : List α} (h : Nests kind n log)
    (hacts : acts (m ++ .request :: m') = log) (hagrees : Agrees kind flag (m ++ .request :: m'))
    (hstarted : acts m ≠ []) : Ends kind (acts m') ↔
      TestsFirst kind (acts m') ∧ (clears kind (acts m) = 1 ∨ clears kind (acts m) = n + 1) := by
  have hafter := agrees_after_request hagrees
  rw [acts_append, acts_cons_request] at hacts
  obtain ⟨c, l, hm⟩ := List.exists_cons_of_ne_nil hstarted
  rw [hm] at hacts ⊢
  constructor
  · intro hends
    refine ⟨hends.testsFirst, ?_⟩
    have hclears : clears kind log = clears kind (c :: l) := by
      rw [← hacts, clears_append, hends.clears, Nat.add_zero]
    rw [← hclears]
    cases h with
    | single hclear hheeds => exact .inl (by rw [clears_cons_clear hclear, hheeds.clears])
    | nested hclear hcalm hrest =>
      refine .inr ?_
      rw [clears_cons_clear hclear, clears_append, hcalm.clears, hrest.clears, Nat.zero_add]
  · rintro ⟨htests, hlast⟩
    cases h with
    | single hclear hheeds =>
      obtain ⟨rfl, rfl⟩ := List.cons.inj hacts
      exact ends_of_testsFirst (hheeds.of_suffix (List.suffix_append ..)) htests hafter
    | @nested _ body rest hclear hcalm hrest =>
      obtain ⟨rfl, hsplit⟩ := List.cons.inj hacts
      refine ends_of_testsFirst ?_ htests hafter
      -- no other stint can follow the test
      have hnext : ∀ {l}, Calm kind l → acts m' = l ++ rest → rest = [] := by
        intro l hl heq
        cases hrest with
        | nil => rfl
        | cons hclear' => exact absurd htests (not_testsFirst hclear' hl hafter heq)
      obtain ⟨as, rfl, hm'⟩ | ⟨cs, rfl, rfl⟩ := List.append_eq_append_iff.1 hsplit
      · have has : Calm kind as := (calm_append.1 hcalm).2
        rw [hm', hnext has hm', List.append_nil]
        exact has.heeds
      · refine hrest.heeds_of_append ?_
        rw [clears_cons_clear hclear, clears_append, hcalm.clears, Nat.zero_add,
          Nat.add_right_cancel_iff] at hlast
        have hall := hrest.clears
        rw [clears_append] at hall
        cases cs with
        | nil => rw [show acts m' = [] from hnext (l := []) nofun rfl]; rfl
        | cons x cs =>
          rw [clears_cons_clear hrest.clear_of_cons] at hlast hall
          omega

end Cancelling
