namespace Rystemd.Simulation

variable {σ τ ρ β : Type} {f : σ → ρ → β × σ} {g : τ → ρ → β × τ} {R : σ → τ → Prop} {s : σ} {t : τ}

/-- The answers of a machine to a sequence of requests. -/
def answers (f : σ → ρ → β × σ) : σ → List ρ → List β
  | _, [] => []
  | s, r :: rs => (f s r).1 :: answers f (f s r).2 rs

/-- One request at a time the machines answer alike, from states that are related. -/
def Simulates (f : σ → ρ → β × σ) (g : τ → ρ → β × τ) (R : σ → τ → Prop) : Prop :=
  ∀ s t, R s t → ∀ r, (f s r).1 = (g t r).1 ∧ R (f s r).2 (g t r).2

theorem Simulates.answers_eq (h : Simulates f g R) (hst : R s t) (rs : List ρ) :
    answers f s rs = answers g t rs := by
  induction rs generalizing s t with
  | nil => rfl
  | cons r rs ih =>
    obtain ⟨ha, hst⟩ := h s t hst r
    rw [answers, answers, ha, ih hst]

end Rystemd.Simulation
