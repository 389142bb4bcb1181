import Mathlib.Logic.Function.Basic

/-!
# Codes that are read from the front

If each symbol can be told from the front of its code, whatever follows, then a text of codes has
one reading (`PrefixFree.flatMap_injective`).
-/

namespace PrefixCode

variable {α β : Type*}

/-- No code is the beginning of what begins with another. -/
def PrefixFree (code : α → List β) : Prop := ∀ a b s t, code a ++ s = code b ++ t → a = b

variable {code : α → List β}

/-- A code is prefix-free if its first symbol can be read. -/
theorem prefixFree_of_read {read : List β → α} (h : ∀ a s, read (code a ++ s) = a) :
    PrefixFree code := by
  intro a b s t hst
  rw [← h a s, hst, h b t]

/-- A text of codes has one reading. -/
theorem PrefixFree.flatMap_injective (h : PrefixFree code) (hne : ∀ a, code a ≠ []) :
    Function.Injective fun l : List α => l.flatMap code := by
  have hnil : ∀ a l, List.flatMap code (a :: l) ≠ [] := fun a l hnil => by
    rw [List.flatMap_cons] at hnil
    exact hne a (List.append_eq_nil_iff.1 hnil).1
  intro l
  induction l with
  | nil =>
    intro l' hl
    cases l' with
    | nil => rfl
    | cons b l' => exact absurd hl.symm (hnil b l')
  | cons a l ih =>
    intro l' hl
    cases l' with
    | nil => exact absurd hl (hnil a l)
    | cons b l' =>
      have hcodes : code a ++ l.flatMap code = code b ++ l'.flatMap code := by
        rw [← List.flatMap_cons, ← List.flatMap_cons]
        exact hl
      obtain rfl := h a b _ _ hcodes
      rw [ih (List.append_cancel_left hcodes)]

/-- A decoder that takes one code off reads a text of them. -/
theorem decode_flatMap {decode : List β → List α} (hnil : decode [] = [])
    (h : ∀ a s, decode (code a ++ s) = a :: decode s) (l : List α) :
    decode (l.flatMap code) = l := by
  induction l with
  | nil => exact hnil
  | cons a l ih => rw [List.flatMap_cons, h, ih]

/-- A reader that makes something of one code, and goes on, makes it of a text of them. -/
theorem read_flatMap {γ : Type*} {read : List β → Option (List γ × List β)} {out : α → List γ}
    (h : ∀ a s, read (code a ++ s) = (read s).map (Prod.map (out a ++ ·) id)) (l : List α)
    (s : List β) :
    read (l.flatMap code ++ s) = (read s).map (Prod.map (l.flatMap out ++ ·) id) := by
  induction l with
  | nil =>
    rw [List.flatMap_nil, List.nil_append]
    cases read s <;> rfl
  | cons a l ih =>
    rw [List.flatMap_cons, List.append_assoc, h, ih, Option.map_map]
    congr 1
    funext x
    simp [Prod.map]

/-- If a symbol has one place in one code, then it stands there in a text of codes. -/
theorem exists_of_flatMap_eq_append {x : β} {a : α} {u v : List β}
    (h : ∀ b s t, code b = s ++ x :: t → b = a ∧ s = u ∧ t = v) {l : List α} {s t : List β}
    (hl : l.flatMap code = s ++ x :: t) :
    ∃ l₁ l₂, l = l₁ ++ a :: l₂ ∧ s = l₁.flatMap code ++ u ∧ t = v ++ l₂.flatMap code := by
  induction l generalizing s with
  | nil => exact absurd hl.symm (by simp)
  | cons b l ih =>
    have hlater : ∀ s', s = code b ++ s' → l.flatMap code = s' ++ x :: t →
        ∃ l₁ l₂, b :: l = l₁ ++ a :: l₂ ∧ s = l₁.flatMap code ++ u ∧ t = v ++ l₂.flatMap code := by
      rintro s' rfl hl'
      obtain ⟨l₁, l₂, rfl, rfl, rfl⟩ := ih hl'
      exact ⟨b :: l₁, l₂, rfl, by rw [List.flatMap_cons, List.append_assoc], rfl⟩
    rw [List.flatMap_cons] at hl
    rcases List.append_eq_append_iff.1 hl with ⟨s', hs, hl'⟩ | ⟨w, hb, hw⟩
    · exact hlater s' hs hl'
    · cases w with
      | nil => exact hlater [] (by rw [hb, List.append_nil, List.append_nil]) hw.symm
      | cons y w =>
        obtain ⟨rfl, rfl⟩ := List.cons_eq_cons.1 hw
        obtain ⟨rfl, rfl, rfl⟩ := h b s w hb
        exact ⟨[], l, rfl, rfl, rfl⟩

end PrefixCode
