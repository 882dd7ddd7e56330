import Mathlib.Logic.Relation

namespace Rystemd.Paths

open Relation

variable {α : Type} {r r' : α → α → Prop} {a b n : α}

/-- If only edges out of `n` are new, a path is old or goes through `n`. -/
theorem transGen_through (h : ∀ x y, r' x y → r x y ∨ x = n) (hp : TransGen r' a b) :
    TransGen r a b ∨ (ReflTransGen r' a n ∧ TransGen r' n b) := by
  induction hp with
  | single hab =>
    rcases h _ _ hab with hr | rfl
    · exact .inl (.single hr)
    · exact .inr ⟨.refl, .single hab⟩
  | @tail x y hp hxy ih =>
    rcases ih with hr | ⟨ha, hn⟩
    · rcases h x y hxy with hr' | rfl
      · exact .inl (hr.tail hr')
      · exact .inr ⟨hp.to_reflTransGen, .single hxy⟩
    · exact .inr ⟨ha, hn.tail hxy⟩

/-- Two nodes on a common cycle stay on one, or the new edges close a cycle. -/
theorem common_cycle (h : ∀ x y, r' x y → r x y ∨ x = n) (hab : TransGen r' a b)
    (hba : TransGen r' b a) : (TransGen r a b ∧ TransGen r b a) ∨ TransGen r' n n := by
  rcases transGen_through h hab with hab' | ⟨han, hnb⟩
  · rcases transGen_through h hba with hba' | ⟨hbn, hna⟩
    · exact .inl ⟨hab', hba'⟩
    · exact .inr ((hna.trans hab).trans_left hbn)
  · exact .inr ((hnb.trans hba).trans_left han)

/-- A relation is acyclic if a path never leads back along one of its edges. -/
theorem acyclic_of_noReturn (hs : ∀ x y, r x y → TransGen r' x y) (hn : ∀ x y, r x y → ¬ TransGen r' y x)
    (a : α) : ¬ TransGen r a a := by
  intro h
  obtain ⟨b, hab, hba⟩ := TransGen.head'_iff.mp h
  rcases reflTransGen_iff_eq_or_transGen.mp hba with rfl | hba
  · exact hn _ _ hab (hs _ _ hab)
  · exact hn _ _ hab (TransGen.trans_induction_on hba (fun h ↦ hs _ _ h) fun _ _ ↦ TransGen.trans)

end Rystemd.Paths
