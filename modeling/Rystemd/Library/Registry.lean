import Mathlib.Data.Set.Lattice
import Mathlib.Logic.Function.Basic

/-! A registry of items under keys, and the set of all names of its items. -/

namespace Registry

open Function Set

variable {κ ι ν : Type}

/-- The names of the item under a key. -/
def coveredAt (names : ι → Set ν) (reg : κ → Option ι) (k : κ) : Set ν := ⋃ d ∈ reg k, names d

/-- All the names of the registered items. -/
def covered (names : ι → Set ν) (reg : κ → Option ι) : Set ν := ⋃ k, coveredAt names reg k

/-- The names of the items under all keys but one. -/
def coveredBut (names : ι → Set ν) (reg : κ → Option ι) (k : κ) : Set ν :=
  ⋃ k' ≠ k, coveredAt names reg k'

variable {names : ι → Set ν} {reg : κ → Option ι} {k : κ} {d : ι}

theorem covered_eq_union : covered names reg = coveredAt names reg k ∪ coveredBut names reg k := by
  apply subset_antisymm
  · apply iUnion_subset
    intro k'
    by_cases hk : k' = k
    · rw [hk]
      exact subset_union_left
    · apply Subset.trans _ subset_union_right
      exact subset_biUnion_of_mem (u := fun k' ↦ coveredAt names reg k') hk
  · apply union_subset
    · exact subset_iUnion (coveredAt names reg) k
    · apply iUnion₂_subset
      intro k' _
      exact subset_iUnion (coveredAt names reg) k'

theorem covered_empty : covered names (fun _ : κ ↦ none) = ∅ := by
  ext n
  simp [covered, coveredAt]

variable [DecidableEq κ]

theorem coveredBut_update (v : Option ι) :
    coveredBut names (update reg k v) k = coveredBut names reg k := by
  apply iUnion_congr
  intro k'
  apply iUnion_congr
  intro hk
  simp only [coveredAt, update_of_ne hk]

theorem covered_register :
    covered names (update reg k (some d)) = names d ∪ coveredBut names reg k := by
  rw [covered_eq_union (k := k), coveredBut_update]
  simp [coveredAt]

theorem covered_unregister : covered names (update reg k none) = coveredBut names reg k := by
  rw [covered_eq_union (k := k), coveredBut_update]
  simp [coveredAt]

/-- Adding the names of an item is exact when the item it replaces has no name of its own left. -/
theorem union_eq_covered_register_iff :
    covered names reg ∪ names d = covered names (update reg k (some d)) ↔
      coveredAt names reg k ⊆ names d ∪ coveredBut names reg k := by
  rw [covered_register, covered_eq_union (k := k)]
  constructor
  · intro h
    rw [← h]
    exact subset_union_left.trans subset_union_left
  · intro h
    apply subset_antisymm
    · apply union_subset (union_subset h subset_union_right) subset_union_left
    · apply union_subset subset_union_right (subset_union_right.trans subset_union_left)

/-- Dropping the names of an item is exact when no other item has one of them and the registered
item has no further one. -/
theorem diff_eq_covered_unregister_iff :
    covered names reg \ names d = covered names (update reg k none) ↔
      (∀ n ∈ names d, n ∉ coveredBut names reg k) ∧
        coveredAt names reg k ⊆ names d ∪ coveredBut names reg k := by
  rw [covered_unregister, covered_eq_union (k := k)]
  constructor
  · intro h
    constructor
    · intro n hn hb
      rw [← h] at hb
      exact hb.2 hn
    · intro n hn
      by_cases hd : n ∈ names d
      · exact .inl hd
      · right
        rw [← h]
        exact ⟨.inl hn, hd⟩
  · rintro ⟨hd, hs⟩
    apply subset_antisymm
    · rintro n ⟨hn | hn, hnot⟩
      · obtain hn | hn := hs hn
        · exact absurd hn hnot
        · exact hn
      · exact hn
    · exact fun n hn ↦ ⟨.inr hn, fun h ↦ hd n h hn⟩

end Registry
