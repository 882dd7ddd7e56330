namespace Partial

variable {ρ ε β α γ : Type}

/-- A computation that fails with an error, gives a value or does not end. -/
abbrev Computation (ε α : Type) := ExceptT ε Option α

/-- It ends with a value. -/
def Gives (x : Computation ε α) : Prop := ∃ a, x = some (.ok a)

variable {p : ρ → Computation ε β} {x : Computation ε α} {k : α → Computation ε γ} {rs rs' : List ρ}
  {r : ρ} {r' : Except ε α}

/-- One of some computations in a row does not end, and those before it give a value. -/
inductive Stuck (p : ρ → Computation ε β) : List ρ → Prop
  | here {r : ρ} {rs : List ρ} : p r = none → Stuck p (r :: rs)
  | later {r : ρ} {rs : List ρ} : Gives (p r) → Stuck p rs → Stuck p (r :: rs)

/-- The computation makes these other computations one after the other. It does not end where one of
them does not, and gives a value where they all do. -/
structure Makes (p : ρ → Computation ε β) (x : Computation ε α) (rs : List ρ) : Prop where
  stuck : x = none ↔ Stuck p rs
  gives : Gives x ↔ ∀ r ∈ rs, Gives (p r)

theorem not_gives_none : ¬ Gives (none : Computation ε α) := fun ⟨_, h⟩ ↦ by cases h

theorem not_gives_error (e : ε) : ¬ Gives (some (.error e) : Computation ε α) :=
  fun ⟨_, h⟩ ↦ by cases h

/-- What has ended makes no other computation that does not. -/
theorem ended (h : x = some r') : x = none ↔ Stuck p [] := by
  rw [h]
  constructor
  · intro h
    cases h
  · intro h
    cases h

theorem stuck_append : Stuck p (rs ++ rs') ↔
    Stuck p rs ∨ (∀ r ∈ rs, Gives (p r)) ∧ Stuck p rs' := by
  constructor
  · intro h
    induction rs with
    | nil => exact .inr ⟨by simp, h⟩
    | cons r rs ih =>
      cases h with
      | here h => exact .inl (.here h)
      | later hr h =>
        rcases ih h with h | ⟨hrs, h⟩
        · exact .inl (.later hr h)
        · exact .inr ⟨List.forall_mem_cons.mpr ⟨hr, hrs⟩, h⟩
  · rintro (h | ⟨hrs, h⟩)
    · induction h with
      | here h => exact .here h
      | later hr _ ih => exact .later hr ih
    · induction rs with
      | nil => exact h
      | cons r rs ih =>
        obtain ⟨hr, hrs⟩ := List.forall_mem_cons.mp hrs
        exact .later hr (ih hrs)

namespace Makes

theorem pure (a : α) : Makes p (Pure.pure a : Computation ε α) [] where
  stuck := ended rfl
  gives := ⟨fun _ ↦ by simp, fun _ ↦ ⟨a, rfl⟩⟩

theorem one (r : ρ) : Makes p (p r) [r] where
  stuck := by
    constructor
    · exact .here
    · intro h
      cases h with
      | here h => exact h
      | later _ h => cases h
  gives := by simp

/-- What follows is only come to with a value of the first computation. -/
theorem bind_stuck (h : Makes p x rs) (hk : ∀ a, x = some (.ok a) → (k a = none ↔ Stuck p rs')) :
    x >>= k = none ↔ Stuck p (rs ++ rs') := by
  rw [stuck_append, ← h.stuck, ← h.gives]
  match x with
  | none => exact ⟨fun _ ↦ .inl rfl, fun _ ↦ rfl⟩
  | some (.error e) =>
    constructor
    · intro h
      cases h
    · rintro (h | ⟨h, -⟩)
      · cases h
      · exact absurd h (not_gives_error e)
  | some (.ok a) =>
    apply (hk a rfl).trans
    constructor
    · exact fun h ↦ .inr ⟨⟨a, rfl⟩, h⟩
    · rintro (h | ⟨-, h⟩)
      · cases h
      · exact h

theorem bind (h : Makes p x rs) (hk : ∀ a, Makes p (k a) rs') : Makes p (x >>= k) (rs ++ rs') where
  stuck := h.bind_stuck fun a _ ↦ (hk a).stuck
  gives := by
    rw [List.forall_mem_append, ← h.gives]
    match x with
    | none => exact ⟨fun h ↦ absurd h not_gives_none, fun h ↦ absurd h.1 not_gives_none⟩
    | some (.error e) =>
      exact ⟨fun h ↦ absurd h (not_gives_error e), fun h ↦ absurd h.1 (not_gives_error e)⟩
    | some (.ok a) =>
      apply (hk a).gives.trans
      exact ⟨fun h ↦ ⟨⟨a, rfl⟩, h⟩, fun h ↦ h.2⟩

end Makes

/-- What every value of the computation has, if it gives one. -/
def Ensures (x : Computation ε α) (P : α → Prop) : Prop := ∀ a, x = some (.ok a) → P a

namespace Ensures

variable {P : α → Prop} {Q : γ → Prop} {a : α}

theorem pure (h : P a) : Ensures (Pure.pure a : Computation ε α) P := by
  intro a' ha'
  cases ha'
  exact h

theorem throw (e : ε) : Ensures (throw e : Computation ε α) P := by
  intro a ha
  cases ha

theorem bind (h : Ensures x P) (hk : ∀ a, P a → Ensures (k a) Q) : Ensures (x >>= k) Q := by
  intro c hc
  match x with
  | none => cases hc
  | some (.error e) => cases hc
  | some (.ok a) => exact hk a (h a rfl) c hc

/-- A value that was computed without a loop. -/
theorem lift {r : Except ε α} (h : ∀ a, r = .ok a → P a) :
    Ensures (ExceptT.mk (some r) : Computation ε α) P := by
  intro a ha
  exact h a (Option.some.inj ha)

end Ensures

end Partial
