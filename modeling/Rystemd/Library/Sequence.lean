import Mathlib.Data.List.Basic

/-! Sequences of steps of which some do not run, and which a step that does not pass ends. -/

namespace Sequence

variable {τ : Type} (runs passes : τ → Bool)

/-- The steps that run, in order, and whether the sequence comes to its end. -/
def upto : List τ → List τ × Bool
  | [] => ([], true)
  | t :: ts =>
    let r := if passes t then upto ts else ([], false)
    (if runs t then t :: r.1 else r.1, r.2)

/-- None of the steps runs or ends the sequence. -/
def Idle (ts : List τ) : Prop := ∀ t ∈ ts, runs t = false ∧ passes t

/-- The sequence ends before any step has run. -/
def Refuses (ts : List τ) : Prop :=
  ∃ l t r, ts = l ++ t :: r ∧ Idle runs passes l ∧ runs t = false ∧ passes t = false

variable {runs passes} {t : τ} {ts rest : List τ}

@[simp] theorem idle_nil : Idle runs passes [] := by simp [Idle]

theorem idle_cons : Idle runs passes (t :: ts) ↔
    (runs t = false ∧ passes t) ∧ Idle runs passes ts := by
  simp [Idle]

theorem refuses_cons : Refuses runs passes (t :: ts) ↔
    runs t = false ∧ (passes t = false ∨ Refuses runs passes ts) := by
  constructor
  · rintro ⟨l, t', r, h, hidle, hruns, hpasses⟩
    cases l with
    | nil =>
      obtain ⟨rfl, rfl⟩ := List.cons.inj h
      exact ⟨hruns, .inl hpasses⟩
    | cons a l =>
      obtain ⟨rfl, rfl⟩ := List.cons.inj h
      have h' := idle_cons.mp hidle
      exact ⟨h'.1.1, .inr ⟨l, t', r, rfl, h'.2, hruns, hpasses⟩⟩
  · rintro ⟨hruns, hpasses⟩
    cases hp : passes t with
    | false => exact ⟨[], t, ts, rfl, idle_nil, hruns, hp⟩
    | true =>
      obtain ⟨l, t', r, rfl, hidle, h'⟩ := hpasses.resolve_left (by simp [hp])
      exact ⟨t :: l, t', r, rfl, idle_cons.mpr ⟨⟨hruns, hp⟩, hidle⟩, h'⟩

theorem upto_cons_pass (h : passes t) : upto runs passes (t :: ts) =
    (if runs t then t :: (upto runs passes ts).1 else (upto runs passes ts).1,
      (upto runs passes ts).2) := by
  simp [upto, h]

theorem upto_cons_stop (h : passes t = false) : upto runs passes (t :: ts) =
    (if runs t then [t] else [], false) := by
  simp [upto, h]

theorem upto_idle (h : Idle runs passes ts) : upto runs passes (ts ++ rest) = upto runs passes rest := by
  induction ts with
  | nil => rfl
  | cons t ts ih =>
    obtain ⟨⟨hruns, hpasses⟩, hidle⟩ := idle_cons.mp h
    rw [List.cons_append, upto_cons_pass hpasses, hruns, ih hidle]
    simp

theorem upto_refuses (h : Refuses runs passes ts) : upto runs passes (ts ++ rest) = ([], false) := by
  obtain ⟨l, t, r, rfl, hidle, hruns, hpasses⟩ := h
  rw [List.append_assoc, upto_idle hidle, List.cons_append, upto_cons_stop hpasses, hruns]
  simp

/-- Steps that neither are idle nor refuse have a first one that runs. -/
theorem upto_runs (hi : ¬ Idle runs passes ts) (hr : ¬ Refuses runs passes ts) :
    ∃ t ∈ ts, ∃ l, (upto runs passes (ts ++ rest)).1 = t :: l := by
  induction ts with
  | nil => exact absurd idle_nil hi
  | cons t ts ih =>
    cases hruns : runs t with
    | true =>
      refine ⟨t, List.mem_cons_self, ?_⟩
      cases hp : passes t with
      | true => exact ⟨_, by rw [List.cons_append, upto_cons_pass hp, hruns]; rfl⟩
      | false => exact ⟨_, by rw [List.cons_append, upto_cons_stop hp, hruns]; rfl⟩
    | false =>
      rw [refuses_cons] at hr
      have hp : passes t := by
        by_contra hp
        exact hr ⟨hruns, .inl (by simpa using hp)⟩
      obtain ⟨t', hmem, l, hl⟩ := ih (fun h ↦ hi (idle_cons.mpr ⟨⟨hruns, hp⟩, h⟩))
        fun h ↦ hr ⟨hruns, .inr h⟩
      refine ⟨t', List.mem_cons_of_mem t hmem, l, ?_⟩
      rw [List.cons_append, upto_cons_pass hp, hruns]
      simpa using hl

theorem upto_of_idle (h : Idle runs passes ts) : upto runs passes ts = ([], true) := by
  have hrest : upto runs passes (ts ++ []) = upto runs passes [] := upto_idle h
  rwa [List.append_nil] at hrest

theorem upto_of_refuses (h : Refuses runs passes ts) : upto runs passes ts = ([], false) := by
  have hrest : upto runs passes (ts ++ []) = ([], false) := upto_refuses h
  rwa [List.append_nil] at hrest

/-- A sequence that runs nothing is idle or refuses. -/
theorem idle_or_refuses (h : (upto runs passes ts).1 = []) :
    Idle runs passes ts ∨ Refuses runs passes ts := by
  by_contra hn
  obtain ⟨hi, hr⟩ := not_or.mp hn
  obtain ⟨t, -, l, hl⟩ : ∃ t ∈ ts, ∃ l, (upto runs passes (ts ++ [])).1 = t :: l := upto_runs hi hr
  rw [List.append_nil, h] at hl
  cases hl

theorem upto_eq_idle : upto runs passes ts = ([], true) ↔ Idle runs passes ts := by
  refine ⟨fun h ↦ (idle_or_refuses (by rw [h])).resolve_right fun hr ↦ ?_, upto_of_idle⟩
  have hfalse := upto_of_refuses hr
  rw [h] at hfalse
  cases hfalse

theorem upto_eq_refuses : upto runs passes ts = ([], false) ↔ Refuses runs passes ts := by
  refine ⟨fun h ↦ (idle_or_refuses (by rw [h])).resolve_left fun hi ↦ ?_, upto_of_refuses⟩
  have htrue := upto_of_idle hi
  rw [h] at htrue
  cases htrue

end Sequence
