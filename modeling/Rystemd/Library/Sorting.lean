import Mathlib.Data.List.Pairwise
import Mathlib.Data.List.Nodup

namespace Sorting

variable {α : Type} {l : List α} {le : α → α → Bool} {before : α → α → Prop}

/-- Two different entries stand in one of both orders. -/
theorem pairwise_or (h : l.Pairwise before) :
    ∀ a ∈ l, ∀ b ∈ l, a ≠ b → before a b ∨ before b a := by
  have hsymm : Std.Symm fun a b ↦ before a b ∨ before b a := ⟨fun a b ↦ Or.symm⟩
  have hor : l.Pairwise fun a b ↦ before a b ∨ before b a := h.imp .inl
  intro a ha b hb hne
  exact hor.forall ha hb hne

/-- What is sorted by one order without ties is in another order exactly where both agree. -/
theorem pairwise_iff_agrees (hsorted : l.Pairwise fun a b ↦ le a b) (hnodup : l.Nodup)
    (antisymm : ∀ a b, le a b → le b a → a = b)
    (asymm : ∀ a ∈ l, ∀ b ∈ l, before a b → ¬ before b a)
    (total : ∀ a ∈ l, ∀ b ∈ l, a ≠ b → before a b ∨ before b a) :
    l.Pairwise before ↔ ∀ a ∈ l, ∀ b ∈ l, before a b → le a b := by
  constructor
  · intro hbefore a ha b hb hab
    have hne : a ≠ b := by
      rintro rfl
      exact asymm a ha a ha hab hab
    rcases pairwise_or (hbefore.and hsorted) a ha b hb hne with h | h
    · exact h.2
    · exact absurd h.1 (asymm a ha b hb hab)
  · intro hagrees
    apply (hsorted.and hnodup).imp_of_mem
    rintro a b ha hb ⟨hle, hne⟩
    rcases total a ha b hb hne with h | h
    · exact h
    · exact absurd (antisymm a b hle (hagrees b hb a ha h)) hne

end Sorting
