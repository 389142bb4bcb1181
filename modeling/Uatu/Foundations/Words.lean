import Mathlib.Data.List.Basic

/-!
# Words

The words of a text are its parts between separators, of which there can be several in a row. A word
is not empty and has no separator in it (`isWord_of_mem_words`), and all such words can be written
next to each other (`words_append_cons`).
-/

namespace Words

variable {α : Type*} {p : α → Bool} {w l : List α}

/-- It is not empty and has no separator in it. -/
def IsWord (p : α → Bool) (w : List α) : Prop := w ≠ [] ∧ ∀ a ∈ w, p a = false

instance : DecidablePred (IsWord p) := fun w =>
  @instDecidableAnd _ _ inferInstance (List.decidableBAll _ w)

theorem eq_false_of_mem_splitOnPPrepend {acc : List α} (hacc : ∀ a ∈ acc, p a = false)
    (h : w ∈ l.splitOnPPrepend p acc) : ∀ a ∈ w, p a = false := by
  induction l generalizing acc with
  | nil =>
    rw [List.splitOnPPrepend_nil, List.mem_singleton] at h
    subst h
    simpa using hacc
  | cons x l ih =>
    cases hx : p x with
    | true =>
      rw [List.splitOnPPrepend_cons_pos hx, List.mem_cons] at h
      rcases h with rfl | h
      · simpa using hacc
      · exact ih (List.forall_mem_nil _) h
    | false =>
      rw [List.splitOnPPrepend_cons_neg hx] at h
      exact ih (List.forall_mem_cons.2 ⟨hx, hacc⟩) h

variable (p) in
/-- The words of a text. -/
def words (l : List α) : List (List α) := (l.splitOnP p).filter (· ≠ [])

theorem isWord_of_mem_words (h : w ∈ words p l) : IsWord p w := by
  obtain ⟨hmem, hne⟩ := List.mem_filter.1 h
  rw [List.splitOnP_eq_splitOnPPrepend] at hmem
  exact ⟨of_decide_eq_true hne, eq_false_of_mem_splitOnPPrepend (List.forall_mem_nil _) hmem⟩

theorem words_eq_singleton (hw : IsWord p w) : words p w = [w] := by
  rw [words, List.splitOnP_eq_singleton hw.2]
  simp [hw.1]

theorem words_append_cons (hw : IsWord p w) {a : α} (ha : p a = true) (l : List α) :
    words p (w ++ a :: l) = w :: words p l := by
  rw [words, List.splitOnP_append_cons_of_forall_mem hw.2 a ha]
  simp [hw.1, words]

end Words
