import Mathlib.Data.List.Basic

namespace Fallible

variable {ε ε' α α' β β' γ : Type}

theorem ok_bind (a : α) (f : α → Except ε β) : (.ok a : Except ε α) >>= f = f a := rfl

theorem ok_of_map {f : α → β} {x : Except ε α} {b : β} (h : x.map f = .ok b) :
    ∃ a, x = .ok a ∧ f a = b := by
  cases x with
  | error e => cases h
  | ok a => exact ⟨a, rfl, Except.ok.inj h⟩

theorem ok_of_bind {f : α → Except ε β} {x : Except ε α} {b : β} (h : x.bind f = .ok b) :
    ∃ a, x = .ok a ∧ f a = .ok b := by
  cases x with
  | error e => cases h
  | ok a => exact ⟨a, rfl, h⟩

/-- What every element gives is kept by a list that could be computed. -/
theorem forall_mapM_iff {f : α → Except ε β} {p : α → Prop} {q : β → Prop} {l : List α} {r : List β}
    (hf : ∀ a b, f a = .ok b → (q b ↔ p a)) (h : l.mapM f = .ok r) :
    (∀ b ∈ r, q b) ↔ ∀ a ∈ l, p a := by
  induction l generalizing r with
  | nil =>
    obtain rfl := Except.ok.inj h
    simp
  | cons a l ih =>
    rw [List.mapM_cons] at h
    obtain ⟨b, hb, h⟩ := ok_of_bind h
    obtain ⟨r', hr', h⟩ := ok_of_bind h
    obtain rfl := Except.ok.inj h
    rw [List.forall_mem_cons, List.forall_mem_cons, hf a b hb, ih hr']

/-- Two computations both give values that are related by `V` or both fail with errors that are
related by `E`. -/
inductive Agree (E : ε → ε' → Prop) (V : α → α' → Prop) : Except ε α → Except ε' α' → Prop
  | ok {a : α} {a' : α'} : V a a' → Agree E V (.ok a) (.ok a')
  | error {e : ε} {e' : ε'} : E e e' → Agree E V (.error e) (.error e')

variable {E : ε → ε' → Prop} {V : α → α' → Prop} {W : β → β' → Prop} {x : Except ε α}
  {x' : Except ε' α'}

theorem Agree.map {f : α → β} {f' : α' → β'} (h : Agree E V x x')
    (hf : ∀ a a', V a a' → W (f a) (f' a')) : Agree E W (x.map f) (x'.map f') := by
  cases h with
  | ok hv => exact .ok (hf _ _ hv)
  | error he => exact .error he

theorem Agree.bind {f : α → Except ε β} {f' : α' → Except ε' β'} (h : Agree E V x x')
    (hf : ∀ a a', V a a' → Agree E W (f a) (f' a')) : Agree E W (x.bind f) (x'.bind f') := by
  cases h with
  | ok hv => exact hf _ _ hv
  | error he => exact .error he

/-- Two loops over one list whose rounds agree. -/
theorem Agree.foldlM {f : α → γ → Except ε α} {f' : α' → γ → Except ε' α'}
    (hf : ∀ a a' c, V a a' → Agree E V (f a c) (f' a' c)) {l : List γ} {a : α} {a' : α'}
    (h : V a a') : Agree E V (l.foldlM f a) (l.foldlM f' a') := by
  induction l generalizing a a' with
  | nil => exact .ok h
  | cons c l ih =>
    rw [List.foldlM_cons, List.foldlM_cons]
    exact (hf a a' c h).bind fun _ _ hv ↦ ih hv

/-- What every round keeps that succeeds, a loop keeps that succeeds. -/
theorem foldlM_invariant {f : α → γ → Except ε α} {I : α → Prop} {l : List γ} {a b : α}
    (hf : ∀ a b c, c ∈ l → I a → f a c = .ok b → I b) (h : l.foldlM f a = .ok b) (ha : I a) :
    I b := by
  induction l generalizing a with
  | nil =>
    obtain rfl := Except.ok.inj h
    exact ha
  | cons c l ih =>
    rw [List.foldlM_cons] at h
    obtain ⟨a', hc, h⟩ := ok_of_bind h
    exact ih (fun a b c hc ↦ hf a b c (List.mem_cons_of_mem _ hc)) h
      (hf a a' c List.mem_cons_self ha hc)

end Fallible
