import Rystemd.Library.Table

namespace Rystemd.Index

variable {κ ι ν : Type} [DecidableEq κ] [DecidableEq ι] (owner : ν → ι)

/-- Every entry of the index is the key of an item of that owner. -/
def Points (t : Table κ ν) (ix : Table ι κ) : Prop :=
  ∀ i k, ix.get i = some k → ∃ v, t.get k = some v ∧ owner v = i

/-- Every item is the one that the index has for its owner. -/
def Covers (t : Table κ ν) (ix : Table ι κ) : Prop :=
  ∀ k v, t.get k = some v → ix.get (owner v) = some k

/-- Drop the index entry of an owner if it is this key. -/
def unlink (ix : Table ι κ) (i : ι) (k : κ) : Table ι κ :=
  if ix.get i = some k then ix.remove i else ix

variable {owner} {t : Table κ ν} {ix : Table ι κ} {i i' : ι} {k k' : κ} {v v' : ν}

theorem get_unlink : (unlink ix i k).get i' = if i' = i ∧ ix.get i = some k then none else ix.get i' := by
  unfold unlink
  split
  · next h => rw [Table.get_remove]; simp [h]
  · next h => simp [h]

theorem Covers.inj (h : Covers owner t ix) (hk : t.get k = some v) (hk' : t.get k' = some v')
    (ho : owner v = owner v') : k = k' := by
  have h₁ := h k v hk
  rw [ho, h k' v' hk'] at h₁
  exact (Option.some.inj h₁).symm

theorem Points.insert (h : Points owner t ix) (hk : t.get k = none) :
    Points owner (t.insert k v) (ix.insert (owner v) k) := by
  intro i' k' hi
  rw [Table.get_insert] at hi
  split at hi
  · next he => cases hi; exact ⟨v, Table.get_insert_self, he.symm⟩
  · obtain ⟨v', hv', ho⟩ := h i' k' hi
    have hne : k' ≠ k := by rintro rfl; rw [hk] at hv'; cases hv'
    exact ⟨v', by rw [Table.get_insert, if_neg hne, hv'], ho⟩

theorem Covers.insert (h : Covers owner t ix) (hi : ix.get (owner v) = none) :
    Covers owner (t.insert k v) (ix.insert (owner v) k) := by
  intro k' v' hk'
  rw [Table.get_insert] at hk'
  split at hk'
  · next he => cases hk'; rw [he, Table.get_insert_self]
  · have h' := h k' v' hk'
    have hne : owner v' ≠ owner v := by intro he; rw [he, hi] at h'; cases h'
    rw [Table.get_insert, if_neg hne, h']

theorem Points.remove (h : Points owner t ix) (hk : t.get k = some v) :
    Points owner (t.remove k) (unlink ix (owner v) k) := by
  intro i' k' hi
  rw [get_unlink] at hi
  split at hi
  · cases hi
  · next hn =>
    obtain ⟨v', hv', ho⟩ := h i' k' hi
    have hne : k' ≠ k := by
      rintro rfl
      rw [hk] at hv'
      cases hv'
      exact hn ⟨ho.symm, by rw [ho, hi]⟩
    exact ⟨v', by rw [Table.get_remove, if_neg hne, hv'], ho⟩

theorem Covers.remove (h : Covers owner t ix) : Covers owner (t.remove k) (unlink ix i k) := by
  intro k' v' hk'
  rw [Table.get_remove] at hk'
  split at hk'
  · cases hk'
  · next hne =>
    have h' := h k' v' hk'
    rw [get_unlink, if_neg, h']
    rintro ⟨he, hi⟩
    rw [he, hi] at h'
    exact hne (Option.some.inj h').symm

theorem Points.erase (h : Points owner t ix) (hi : ix.get i = some k) :
    Points owner (t.remove k) (ix.remove i) := by
  obtain ⟨v, hv, ho⟩ := h i k hi
  intro i' k' hi'
  rw [Table.get_remove] at hi'
  split at hi'
  · cases hi'
  · next hne =>
    obtain ⟨v', hv', ho'⟩ := h i' k' hi'
    have hk : k' ≠ k := by
      rintro rfl
      rw [hv] at hv'
      cases hv'
      exact hne (ho'.symm.trans ho)
    exact ⟨v', by rw [Table.get_remove, if_neg hk, hv'], ho'⟩

theorem Covers.erase (h : Covers owner t ix) (hi : ix.get i = some k) :
    Covers owner (t.remove k) (ix.remove i) := by
  have h' := h.remove (i := i) (k := k)
  rwa [unlink, if_pos hi] at h'

theorem Points.modify {f : ν → ν} (h : Points owner t ix) (hf : ∀ v, owner (f v) = owner v) :
    Points owner (t.modify k f) ix := by
  intro i' k' hi
  obtain ⟨v', hv', ho⟩ := h i' k' hi
  rw [Table.get_modify, hv']
  split
  · exact ⟨f v', rfl, (hf v').trans ho⟩
  · exact ⟨v', rfl, ho⟩

theorem Covers.modify {f : ν → ν} (h : Covers owner t ix) (hf : ∀ v, owner (f v) = owner v) :
    Covers owner (t.modify k f) ix := by
  intro k' v' hk'
  rw [Table.get_modify] at hk'
  split at hk'
  · obtain ⟨v₀, hv₀, rfl⟩ := Option.map_eq_some_iff.mp hk'
    rw [hf, h k' v₀ hv₀]
  · exact h k' v' hk'

theorem Points.mapValues {f : ν → ν} (h : Points owner t ix) (hf : ∀ v, owner (f v) = owner v) :
    Points owner (t.mapValues f) ix := by
  intro i' k' hi
  obtain ⟨v', hv', ho⟩ := h i' k' hi
  exact ⟨f v', by rw [Table.get_mapValues, hv']; rfl, (hf v').trans ho⟩

theorem Covers.mapValues {f : ν → ν} (h : Covers owner t ix) (hf : ∀ v, owner (f v) = owner v) :
    Covers owner (t.mapValues f) ix := by
  intro k' v' hk'
  rw [Table.get_mapValues] at hk'
  obtain ⟨v₀, hv₀, rfl⟩ := Option.map_eq_some_iff.mp hk'
  rw [hf, h k' v₀ hv₀]

theorem Points.reindex (h : Points owner t ix) (hk : t.get k = some v) :
    Points owner t (ix.insert (owner v) k) := by
  intro i' k' hi
  rw [Table.get_insert] at hi
  split at hi
  · next he => cases hi; exact ⟨v, hk, he.symm⟩
  · exact h i' k' hi

theorem Covers.reindex (h : Covers owner t ix) (hk : t.get k = some v) :
    Covers owner t (ix.insert (owner v) k) := by
  intro k' v' hk'
  rw [Table.get_insert]
  split
  · next he => rw [h.inj hk hk' he.symm]
  · exact h k' v' hk'

end Rystemd.Index
