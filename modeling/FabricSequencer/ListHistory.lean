import Mathlib.Tactic

/-!
# Properties of an element and the elements before it
-/

namespace ListHistory

open List

variable {α : Type}

def ForallWithPast (holds : List α → α → Prop) (items : List α) : Prop :=
  ∀ before item after, items = before ++ item :: after → holds before item

theorem forallWithPast_nil (holds : List α → α → Prop) : ForallWithPast holds [] := by
  intro _ _ _ hsp
  simp at hsp

theorem forallWithPast_concat_iff {holds : List α → α → Prop} {its : List α} {last : α} :
    ForallWithPast holds (its ++ [last]) ↔ ForallWithPast holds its ∧ holds its last := by
  constructor
  · intro ha
    refine ⟨?_, ha its last [] rfl⟩
    intro pre it post hsp
    apply ha pre it (post ++ [last])
    rw [hsp, append_assoc, cons_append]
  rintro ⟨hit, hla⟩ pre it post hsp
  rcases eq_nil_or_concat post with rfl | ⟨tl, _, rfl⟩
  · obtain ⟨rfl, heq⟩ := append_inj' hsp rfl
    obtain ⟨rfl, -⟩ := cons.inj heq
    exact hla
  · rw [concat_eq_append, ← cons_append, ← append_assoc] at hsp
    obtain ⟨heq, -⟩ := append_inj' hsp rfl
    exact hit pre it tl heq

end ListHistory
