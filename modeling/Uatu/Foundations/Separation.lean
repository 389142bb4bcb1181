import Mathlib.Data.List.Forall2
import Mathlib.Data.List.TakeWhile

/-!
# Texts that can be taken apart

When the first part of a text and the second one differ in what they hold or begin with, the text
has no other such parts. From that, lines are told by the symbol at their ends
(`flatMap_concat_inj`), and groups of lines by how each begins (`flatten_inj`).
-/

namespace Separation

variable {α : Type*} {p : α → Prop} {a : α} {l l' r r' : List α}

/-- The first part holds such symbols only, and the second begins with another, or is empty. -/
theorem append_inj_of_head (hl : ∀ b ∈ l, p b) (hl' : ∀ b ∈ l', p b) (hr : ∀ b ∈ r.head?, ¬ p b)
    (hr' : ∀ b ∈ r'.head?, ¬ p b) (h : l ++ r = l' ++ r') : l = l' ∧ r = r' := by
  induction l generalizing l' with
  | nil =>
    cases l' with
    | nil => exact ⟨rfl, h⟩
    | cons b l' =>
      rw [List.nil_append, List.cons_append] at h
      exact absurd (hl' b (List.mem_cons_self ..)) (hr b (by rw [h]; rfl))
  | cons b l ih =>
    cases l' with
    | nil =>
      rw [List.nil_append, List.cons_append] at h
      exact absurd (hl b (List.mem_cons_self ..)) (hr' b (by rw [← h]; rfl))
    | cons b' l' =>
      rw [List.cons_append, List.cons_append, List.cons.injEq] at h
      obtain ⟨rfl, h⟩ := h
      obtain ⟨rfl, rfl⟩ := ih (fun c hc => hl c (List.mem_cons_of_mem _ hc))
        (fun c hc => hl' c (List.mem_cons_of_mem _ hc)) h
      exact ⟨rfl, rfl⟩

/-- Parts around the first symbol of a kind. -/
theorem append_cons_inj_first (hl : a ∉ l) (hl' : a ∉ l') (h : l ++ a :: r = l' ++ a :: r') :
    l = l' ∧ r = r' := by
  have hsplit := append_inj_of_head (p := (· ≠ a)) (fun b hb => ne_of_mem_of_not_mem hb hl)
    (fun b hb => ne_of_mem_of_not_mem hb hl') (by simp) (by simp) h
  exact ⟨hsplit.1, (List.cons.inj hsplit.2).2⟩

/-- Parts around the last symbol of a kind. -/
theorem append_cons_inj_last (hr : a ∉ r) (hr' : a ∉ r') (h : l ++ a :: r = l' ++ a :: r') :
    l = l' ∧ r = r' := by
  have hreverse : r.reverse ++ a :: l.reverse = r'.reverse ++ a :: l'.reverse := by
    simpa using congrArg List.reverse h
  obtain ⟨hright, hleft⟩ :=
    append_cons_inj_first (by simpa using hr) (by simpa using hr') hreverse
  exact ⟨List.reverse_inj.1 hleft, List.reverse_inj.1 hright⟩

/-- Lines are told by the symbol at their ends. -/
theorem flatMap_concat_inj {ls ls' : List (List α)} (hls : ∀ l ∈ ls, a ∉ l)
    (hls' : ∀ l ∈ ls', a ∉ l) (h : ls.flatMap (· ++ [a]) = ls'.flatMap (· ++ [a])) : ls = ls' := by
  induction ls generalizing ls' with
  | nil =>
    cases ls' with
    | nil => rfl
    | cons l' ls' => simp at h
  | cons l ls ih =>
    cases ls' with
    | nil => simp at h
    | cons l' ls' =>
      rw [List.forall_mem_cons] at hls hls'
      simp only [List.flatMap_cons, List.append_assoc, List.singleton_append] at h
      obtain ⟨rfl, hrest⟩ := append_cons_inj_first hls.1 hls'.1 h
      rw [ih hls.2 hls'.2 hrest]

/-- The first element is such a one, and no other is. -/
def Headed (p : α → Prop) (l : List α) : Prop := ∃ b t, l = b :: t ∧ p b ∧ ∀ c ∈ t, ¬ p c

theorem Headed.head?_flatten {ls : List (List α)} (h : ∀ l ∈ ls, Headed p l) :
    ∀ b ∈ ls.flatten.head?, p b := by
  intro b hb
  cases ls with
  | nil => cases hb
  | cons l ls =>
    obtain ⟨c, t, rfl, hc, -⟩ := h l (List.mem_cons_self ..)
    obtain rfl : c = b := by simpa using hb
    exact hc

/-- Groups are told by how each begins. -/
theorem flatten_inj {ls ls' : List (List α)} (hls : ∀ l ∈ ls, Headed p l)
    (hls' : ∀ l ∈ ls', Headed p l) (h : ls.flatten = ls'.flatten) : ls = ls' := by
  induction ls generalizing ls' with
  | nil =>
    cases ls' with
    | nil => rfl
    | cons l' ls' =>
      obtain ⟨b, t, rfl, -⟩ := hls' l' (List.mem_cons_self ..)
      simp at h
  | cons l ls ih =>
    cases ls' with
    | nil =>
      obtain ⟨b, t, rfl, -⟩ := hls l (List.mem_cons_self ..)
      simp at h
    | cons l' ls' =>
      rw [List.forall_mem_cons] at hls hls'
      obtain ⟨b, t, rfl, -, ht⟩ := hls.1
      obtain ⟨b', t', rfl, -, ht'⟩ := hls'.1
      rw [List.flatten_cons, List.flatten_cons, List.cons_append, List.cons_append,
        List.cons.injEq] at h
      obtain ⟨rfl, h⟩ := h
      obtain ⟨rfl, hrest⟩ := append_inj_of_head ht ht'
        (fun c hc => not_not.2 (Headed.head?_flatten hls.2 c hc))
        (fun c hc => not_not.2 (Headed.head?_flatten hls'.2 c hc)) h
      rw [ih hls.2 hls'.2 hrest]

/-- Lists that are alike in what is made of them. -/
theorem flatMap_eq_of_forall₂ {β : Type*} {f : β → List α} {R : β → β → Prop}
    (hf : ∀ b b', R b b' → f b = f b') {bs bs' : List β} (h : List.Forall₂ R bs bs') :
    bs.flatMap f = bs'.flatMap f := by
  induction h with
  | nil => rfl
  | cons hb _ ih => rw [List.flatMap_cons, List.flatMap_cons, hf _ _ hb, ih]

/-- Records of lines are told by their text: the first line of each shows that it begins, and the
lines of a record tell what is to be told of it. -/
theorem forall₂_of_flatMap_lines {β : Type*} {lines : β → List (List α)} {q : List α → Prop}
    {P : β → Prop} {R : β → β → Prop} (hheaded : ∀ b, P b → Headed q (lines b))
    (hlines : ∀ b, P b → ∀ l ∈ lines b, a ∉ l)
    (hinj : ∀ b b', P b → P b' → lines b = lines b' → R b b') {bs bs' : List β}
    (hbs : ∀ b ∈ bs, P b) (hbs' : ∀ b ∈ bs', P b)
    (h : bs.flatMap (fun b => (lines b).flatMap (· ++ [a])) =
      bs'.flatMap fun b => (lines b).flatMap (· ++ [a])) : List.Forall₂ R bs bs' := by
  have hseparate : ∀ bs : List β, (∀ b ∈ bs, P b) → ∀ l ∈ (bs.map lines).flatten, a ∉ l := by
    intro bs hbs l hl
    obtain ⟨ls, hls, hl⟩ := List.mem_flatten.1 hl
    obtain ⟨b, hb, rfl⟩ := List.mem_map.1 hls
    exact hlines b (hbs b hb) l hl
  have hgroups : ∀ bs : List β, (∀ b ∈ bs, P b) → ∀ ls ∈ bs.map lines, Headed q ls := by
    intro bs hbs ls hls
    obtain ⟨b, hb, rfl⟩ := List.mem_map.1 hls
    exact hheaded b (hbs b hb)
  have hflat : ∀ bs : List β, bs.flatMap (fun b => (lines b).flatMap (· ++ [a])) =
      (bs.map lines).flatten.flatMap (· ++ [a]) := by
    intro bs
    rw [← List.flatMap_def, List.flatMap_assoc]
  rw [hflat, hflat] at h
  have hmap := flatten_inj (hgroups bs hbs) (hgroups bs' hbs')
    (flatMap_concat_inj (hseparate bs hbs) (hseparate bs' hbs') h)
  clear h
  induction bs generalizing bs' with
  | nil =>
    rw [List.map_nil, eq_comm, List.map_eq_nil_iff] at hmap
    rw [hmap]
    exact .nil
  | cons b bs ih =>
    obtain ⟨b', bs', rfl, hb, hrest⟩ := List.map_eq_cons_iff.1 hmap.symm
    rw [List.forall_mem_cons] at hbs hbs'
    exact .cons (hinj b b' hbs.1 hbs'.1 hb.symm) (ih hbs.2 hbs'.2 hrest.symm)

end Separation
