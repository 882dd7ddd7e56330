import Mathlib.Data.List.Basic

namespace Calls

/-- A program that makes calls of type `C`, each of which the world answers with an `R`, and that
stops with an error or returns a value. -/
inductive Prog (C R E α : Type)
  | ret (a : α)
  | fail (e : E)
  | call (c : C) (next : R → Prog C R E α)

namespace Prog

variable {C R E α β : Type}

def bind : Prog C R E α → (α → Prog C R E β) → Prog C R E β
  | ret a, f => f a
  | fail e, _ => fail e
  | call c next, f => call c fun r ↦ (next r).bind f

instance : Monad (Prog C R E) where
  pure := ret
  bind := bind

/-- Make one call. -/
def ask (c : C) : Prog C R E R := call c ret

/-- The program may make these calls, with these answers, and end so. -/
inductive Runs : Prog C R E α → List (C × R) → Except E α → Prop
  | ret (a : α) : Runs (ret a) [] (.ok a)
  | fail (e : E) : Runs (fail e) [] (.error e)
  | call {c : C} {next : R → Prog C R E α} {r : R} {t : List (C × R)} {res : Except E α} :
      Runs (next r) t res → Runs (call c next) ((c, r) :: t) res

/-- The run in which the world gives a call the same answer each time. -/
def run (answer : C → R) : Prog C R E α → List (C × R) × Except E α
  | ret a => ([], .ok a)
  | fail e => ([], .error e)
  | call c next =>
    let (t, res) := (next (answer c)).run answer
    ((c, answer c) :: t, res)

/-- Every call that the program may make is in `P`. -/
def Only (P : C → Prop) : Prog C R E α → Prop
  | ret _ => True
  | fail _ => True
  | call c next => P c ∧ ∀ r, (next r).Only P

section Bind

variable {p : Prog C R E α} {f : α → Prog C R E β} {t t' : List (C × R)} {P : C → Prop}
  {answer : C → R}

theorem Runs.bind {a : α} {res : Except E β} (hp : Runs p t (.ok a)) (hf : Runs (f a) t' res) :
    Runs (p >>= f) (t ++ t') res := by
  generalize hr : (Except.ok a : Except E α) = r at hp
  induction hp with
  | ret b =>
    injection hr with hr
    subst hr
    exact hf
  | fail e => cases hr
  | call _ ih => exact .call (ih hr)

/-- A program that returns has returned from its parts. -/
theorem Runs.of_bind {b : β} (h : Runs (p >>= f) t (.ok b)) :
    ∃ a t₁ t₂, t = t₁ ++ t₂ ∧ Runs p t₁ (.ok a) ∧ Runs (f a) t₂ (.ok b) := by
  induction p generalizing t with
  | ret a => exact ⟨a, [], t, rfl, .ret a, h⟩
  | fail e => cases h
  | call c next ih =>
    cases h with
    | call hn =>
      obtain ⟨a, t₁, t₂, rfl, h₁, h₂⟩ := ih _ hn
      exact ⟨a, _ :: t₁, t₂, rfl, .call h₁, h₂⟩

theorem Only.mono {Q : C → Prop} (h : p.Only P) (hPQ : ∀ c, P c → Q c) : p.Only Q := by
  induction p with
  | ret a => trivial
  | fail e => trivial
  | call c next ih => exact ⟨hPQ c h.1, fun r ↦ ih r (h.2 r)⟩

theorem only_bind (hp : p.Only P) (hf : ∀ a, (f a).Only P) : (p >>= f).Only P := by
  induction p with
  | ret a => exact hf a
  | fail e => trivial
  | call c next ih => exact ⟨hp.1, fun r ↦ ih r (hp.2 r)⟩

theorem runs_run (answer : C → R) (p : Prog C R E α) :
    Runs p (p.run answer).1 (p.run answer).2 := by
  induction p with
  | ret a => exact .ret a
  | fail e => exact .fail e
  | call c next ih => exact .call (ih (answer c))

theorem run_answer {e : C × R} (h : e ∈ (p.run answer).1) : e.2 = answer e.1 := by
  induction p with
  | ret a => cases h
  | fail a => cases h
  | call c next ih =>
    cases h with
    | head => rfl
    | tail _ h => exact ih _ h

/-- A run makes only calls that the program may make. -/
theorem Runs.only {res : Except E α} {e : C × R} (h : Runs p t res) (hp : p.Only P) (he : e ∈ t) :
    P e.1 := by
  induction h with
  | ret a => cases he
  | fail a => cases he
  | call _ ih =>
    cases he with
    | head => exact hp.1
    | tail _ he => exact ih (hp.2 _) he

/-- The program returns `a` when the world answers so. -/
def Returns (answer : C → R) (p : Prog C R E α) (a : α) : Prop := (p.run answer).2 = .ok a

theorem returns_bind {a : α} {b : β} (hp : Returns answer p a) (hf : Returns answer (f a) b) :
    Returns answer (p >>= f) b := by
  induction p with
  | ret c =>
    injection hp with hp
    subst hp
    exact hf
  | fail e => cases hp
  | call c next ih => exact ih _ hp

theorem Returns.runs {a : α} (h : Returns answer p a) : Runs p (p.run answer).1 (.ok a) :=
  h ▸ runs_run answer p

end Bind

section Ask

variable {c : C} {t : List (C × R)} {P : C → Prop} {answer : C → R}

theorem Runs.of_ask {r : R} (h : Runs (ask c : Prog C R E R) t (.ok r)) : t = [(c, r)] := by
  cases h with
  | call h =>
    cases h
    rfl

theorem runs_ask (r : R) : Runs (ask c : Prog C R E R) [(c, r)] (.ok r) := .call (.ret r)

theorem only_ask (h : P c) : (ask c : Prog C R E R).Only P := ⟨h, fun _ ↦ trivial⟩

theorem only_pure (a : α) : (pure a : Prog C R E α).Only P := trivial

theorem Runs.of_pure {a b : α} (h : Runs (pure a : Prog C R E α) t (.ok b)) : t = [] ∧ a = b := by
  cases h
  exact ⟨rfl, rfl⟩

end Ask

section Loop

variable {l : List β} {f : β → Prog C R E Unit} {t : List (C × R)} {P : C → Prop} {answer : C → R}

theorem only_forM (hf : ∀ b ∈ l, (f b).Only P) : (l.forM f).Only P := by
  induction l with
  | nil => exact only_pure _
  | cons b l ih =>
    exact only_bind (hf b (List.mem_cons_self ..)) fun _ ↦
      ih fun b' hb ↦ hf b' (List.mem_cons_of_mem _ hb)

theorem only_foldlM {f : α → β → Prog C R E α} (hf : ∀ a, ∀ b ∈ l, (f a b).Only P) (a : α) :
    (l.foldlM f a).Only P := by
  induction l generalizing a with
  | nil => exact only_pure a
  | cons b l ih =>
    exact only_bind (hf a b List.mem_cons_self) fun a ↦
      ih (fun a b' hb ↦ hf a b' (List.mem_cons_of_mem _ hb)) a

/-- A loop that returns has run its body on each element. -/
theorem Runs.of_forM {b : β} (h : Runs (l.forM f) t (.ok ())) (hb : b ∈ l) :
    ∃ t₁ t₂ t₃, t = t₁ ++ t₂ ++ t₃ ∧ Runs (f b) t₂ (.ok ()) := by
  induction l generalizing t with
  | nil => cases hb
  | cons b' l ih =>
    obtain ⟨_, s₁, s₂, rfl, h₁, h₂⟩ := Runs.of_bind h
    cases hb with
    | head => exact ⟨[], s₁, s₂, rfl, h₁⟩
    | tail _ hb =>
      obtain ⟨t₁, t₂, t₃, rfl, ht⟩ := ih h₂ hb
      exact ⟨s₁ ++ t₁, t₂, t₃, by simp only [List.append_assoc], ht⟩

theorem returns_forM (hf : ∀ b ∈ l, Returns answer (f b) ()) : Returns answer (l.forM f) () := by
  induction l with
  | nil => rfl
  | cons b l ih =>
    exact returns_bind (hf b (List.mem_cons_self ..))
      (ih fun b' hb ↦ hf b' (List.mem_cons_of_mem _ hb))

theorem only_forM_option {o : Option β} (hf : ∀ b ∈ o, (f b).Only P) : (o.forM f).Only P := by
  cases o with
  | none => exact only_pure _
  | some b => exact hf b rfl

theorem returns_forM_option {o : Option β} (hf : ∀ b ∈ o, Returns answer (f b) ()) :
    Returns answer (o.forM f) () := by
  cases o with
  | none => rfl
  | some b => exact hf b rfl

end Loop

section States

variable {S : Type} {step : C → S → R × S} {p : Prog C R E α} {f : α → Prog C R E β} {s s' : S}

/-- The run in a world whose answers depend on a state, and change it. -/
def exec (step : C → S → R × S) : Prog C R E α → S → Except E α × S
  | ret a, s => (.ok a, s)
  | fail e, s => (.error e, s)
  | call c next, s => (next (step c s).1).exec step (step c s).2

theorem exec_bind {a : α} (h : p.exec step s = (.ok a, s')) :
    (p >>= f).exec step s = (f a).exec step s' := by
  induction p generalizing s with
  | ret b =>
    cases h
    rfl
  | fail e => cases h
  | call c next ih => exact ih _ h

end States

section Makes

/-- The program makes these calls one after the other as long as each is answered by `r`, and it
makes no others. -/
structure Makes (r : R) (p : Prog C R E Unit) (calls : List C) : Prop where
  only : p.Only (· ∈ calls)
  run : p.run (fun _ ↦ r) = (calls.map fun c ↦ (c, r), .ok ())

variable {p q : Prog C R E Unit} {l l' : List C} {r : R} {P : C → Prop} {answer answer' : C → R}

theorem run_bind {t : List (C × R)} (h : p.run answer = (t, .ok ())) :
    (p >>= fun _ ↦ q).run answer = (t ++ (q.run answer).1, (q.run answer).2) := by
  induction p generalizing t with
  | ret a =>
    obtain rfl := (Prod.mk.inj h).1
    rfl
  | fail e => cases (Prod.mk.inj h).2
  | call c next ih =>
    obtain ⟨ht, hr⟩ := Prod.mk.inj h
    subst ht
    have hnext := ih (answer c) (Prod.ext rfl hr)
    change (_ :: (((next (answer c)) >>= fun _ ↦ q).run answer).1,
      (((next (answer c)) >>= fun _ ↦ q).run answer).2) = _
    rw [hnext]
    rfl

/-- A program that may make only calls of `P` depends only on how those are answered. -/
theorem run_congr {α : Type} {p : Prog C R E α} (h : p.Only P)
    (ha : ∀ c, P c → answer c = answer' c) : p.run answer = p.run answer' := by
  induction p with
  | ret a => rfl
  | fail e => rfl
  | call c next ih =>
    rw [run, run, ← ha c h.1, ih _ (h.2 _)]

theorem Makes.bind (hp : Makes r p l) (hq : Makes r q l') :
    Makes r (p >>= fun _ ↦ q) (l ++ l') where
  only := only_bind (hp.only.mono fun _ hc ↦ List.mem_append_left _ hc) fun _ ↦
    hq.only.mono fun _ hc ↦ List.mem_append_right _ hc
  run := by
    rw [run_bind hp.run, hq.run, List.map_append]

theorem makes_pure : Makes r (pure () : Prog C R E Unit) [] := ⟨trivial, rfl⟩

theorem makes_forM {f : β → Prog C R E Unit} {g : β → C} {bs : List β}
    (h : ∀ b, Makes r (f b) [g b]) : Makes r (bs.forM f) (bs.map g) := by
  induction bs with
  | nil => exact makes_pure
  | cons b bs ih => exact (h b).bind ih

theorem makes_forM_option {f : β → Prog C R E Unit} {g : β → C} {o : Option β}
    (h : ∀ b, Makes r (f b) [g b]) : Makes r (o.forM f) (o.toList.map g) := by
  cases o with
  | none => exact makes_pure
  | some b => exact h b

end Makes

end Prog

end Calls
