import Mathlib.Logic.Relation

namespace Rystemd.Worklist

/-- A state together with the calls still to be made on it, the next one first. -/
structure Config (σ κ : Type) where
  state : σ
  todo : List κ

/-- A single-threaded program whose procedures queue the calls they nest. Making a call
gives the new state and the nested calls, which run before everything queued earlier;
`none` is a crash. The answers of the environment during a call are its `ω`. -/
structure Engine (σ κ ω : Type) where
  exec : ω → κ → σ → Option (σ × List κ)
  admissible : ω → κ → σ → Prop
  external : κ → Prop

variable {σ κ ω : Type} (M : Engine σ κ ω)

/-- One call is made. Only calls that meet `C` are considered. -/
inductive CallStep (C : ω → κ → σ → Prop) : Config σ κ → Config σ κ → Prop
  | mk {w : ω} {c : κ} {s s' : σ} {cs rest : List κ} :
      M.admissible w c s → C w c s → M.exec w c s = some (s', cs) →
      CallStep C ⟨s, c :: rest⟩ ⟨s', cs ++ rest⟩

/-- One call is made, or an external call arrives while nothing is queued. -/
inductive Step (C : ω → κ → σ → Prop) : Config σ κ → Config σ κ → Prop
  | arrive {c : κ} {s : σ} : M.external c → Step C ⟨s, []⟩ ⟨s, [c]⟩
  | call {a b : Config σ κ} : CallStep M C a b → Step C a b

abbrev Handles (C : ω → κ → σ → Prop) := Relation.ReflTransGen (CallStep M C)

abbrev Run (C : ω → κ → σ → Prop) := Relation.ReflTransGen (Step M C)

/-- The program stops with a crash at its next call. -/
def Crashes (C : ω → κ → σ → Prop) (a : Config σ κ) : Prop :=
  ∃ w c rest, a.todo = c :: rest ∧ M.admissible w c a.state ∧ C w c a.state ∧
    M.exec w c a.state = none

variable {M} {C C' : ω → κ → σ → Prop} {a b : Config σ κ}

theorem CallStep.mono (hC : ∀ w c s, C w c s → C' w c s) (h : CallStep M C a b) :
    CallStep M C' a b := by
  cases h with
  | mk ha hc he => exact .mk ha (hC _ _ _ hc) he

theorem Step.mono (hC : ∀ w c s, C w c s → C' w c s) (h : Step M C a b) : Step M C' a b := by
  cases h with
  | arrive he => exact .arrive he
  | call hs => exact .call (hs.mono hC)

theorem Run.mono (hC : ∀ w c s, C w c s → C' w c s) (h : Run M C a b) : Run M C' a b :=
  Relation.ReflTransGen.mono (fun _ _ ↦ Step.mono hC) _ _ h

theorem Handles.run (h : Handles M C a b) : Run M C a b :=
  Relation.ReflTransGen.mono (fun _ _ ↦ Step.call) _ _ h

/-- What every call preserves holds after any number of calls. -/
theorem Handles.invariant {I : Config σ κ → Prop}
    (hstep : ∀ {w c s s' cs rest}, I ⟨s, c :: rest⟩ → M.admissible w c s → C w c s →
      M.exec w c s = some (s', cs) → I ⟨s', cs ++ rest⟩)
    (h : Handles M C a b) (ha : I a) : I b := by
  induction h with
  | refl => exact ha
  | tail _ hs ih =>
    cases hs with
    | mk hw hc he => exact hstep ih hw hc he

/-- What every call and every arrival preserves holds along every run. -/
theorem Run.invariant {I : Config σ κ → Prop}
    (harrive : ∀ {s c}, I ⟨s, []⟩ → M.external c → I ⟨s, [c]⟩)
    (hstep : ∀ {w c s s' cs rest}, I ⟨s, c :: rest⟩ → M.admissible w c s → C w c s →
      M.exec w c s = some (s', cs) → I ⟨s', cs ++ rest⟩)
    (h : Run M C a b) (ha : I a) : I b := by
  induction h with
  | refl => exact ha
  | tail _ hs ih =>
    cases hs with
    | arrive he => exact harrive ih he
    | call hs =>
      cases hs with
      | mk hw hc he => exact hstep ih hw hc he

/-- A run all of whose arrivals and calls keep `I` is a run that may assume `I` at each call. -/
theorem Run.strengthen {I : Config σ κ → Prop} {D : ω → κ → σ → Prop}
    (harrive : ∀ {s c}, I ⟨s, []⟩ → M.external c → I ⟨s, [c]⟩)
    (hstep : ∀ {w c s s' cs rest}, I ⟨s, c :: rest⟩ → M.admissible w c s → C w c s →
      M.exec w c s = some (s', cs) → I ⟨s', cs ++ rest⟩)
    (hD : ∀ {w c s rest}, I ⟨s, c :: rest⟩ → C w c s → D w c s)
    (h : Run M C a b) (ha : I a) : Run M D a b := by
  suffices Run M D a b ∧ I b from this.1
  induction h with
  | refl => exact ⟨.refl, ha⟩
  | tail _ hs ih =>
    cases hs with
    | arrive he => exact ⟨ih.1.tail (.arrive he), harrive ih.2 he⟩
    | call hs =>
      cases hs with
      | mk hw hc he => exact ⟨ih.1.tail (.call (.mk hw (hD ih.2 hc) he)), hstep ih.2 hw hc he⟩

section Play

variable (M) (C)

/-- A part of a run that is written down: an arrival, or a number of calls that the
environment answers alike. -/
inductive Move (κ ω : Type)
  | arrive (c : κ)
  | calls (w : ω) (n : Nat)

variable [∀ w c s, Decidable (M.admissible w c s ∧ C w c s)] [DecidablePred M.external]

/-- At most `n` calls; `none` if one of them crashes or does not meet the conditions. -/
def playCalls (w : ω) : Nat → Config σ κ → Option (Config σ κ)
  | 0, a => some a
  | _ + 1, ⟨s, []⟩ => some ⟨s, []⟩
  | n + 1, ⟨s, c :: rest⟩ =>
    if M.admissible w c s ∧ C w c s then
      match M.exec w c s with
      | none => none
      | some (s', cs) => playCalls w n ⟨s', cs ++ rest⟩
    else none

def play : List (Move κ ω) → Config σ κ → Option (Config σ κ)
  | [], a => some a
  | .arrive c :: moves, ⟨s, []⟩ => if M.external c then play moves ⟨s, [c]⟩ else none
  | .arrive _ :: _, ⟨_, _ :: _⟩ => none
  | .calls w n :: moves, a =>
    match playCalls M C w n a with
    | none => none
    | some b => play moves b

variable {M} {C}

omit [DecidablePred M.external] in
theorem playCalls_handles {w : ω} {n : Nat} {a b : Config σ κ} (h : playCalls M C w n a = some b) :
    Handles M (fun w' c s ↦ C w' c s ∧ w' = w) a b := by
  fun_induction playCalls M C w n a with
  | case1 a => cases h; exact .refl
  | case2 => cases h; exact .refl
  | case3 => cases h
  | case4 n s c rest hc s' cs he ih => exact .head (.mk hc.1 ⟨hc.2, rfl⟩ he) (ih h)
  | case5 => cases h

omit [DecidablePred M.external] in
theorem playCalls_run {w : ω} {n : Nat} {a b : Config σ κ} (h : playCalls M C w n a = some b) :
    Handles M C a b :=
  Relation.ReflTransGen.mono (fun _ _ ↦ CallStep.mono fun _ _ _ hs ↦ hs.1) _ _ (playCalls_handles h)

/-- A run that is played meets what the answers of the environment meet that are played. -/
theorem play_run_in {P : ω → Prop} {moves : List (Move κ ω)} {a b : Config σ κ}
    (hP : ∀ w n, .calls w n ∈ moves → P w) (h : play M C moves a = some b) :
    Run M (fun w c s ↦ C w c s ∧ P w) a b := by
  fun_induction play M C moves a with
  | case1 a => cases h; exact .refl
  | case2 c moves s he ih =>
    exact .head (.arrive he) (ih (fun w n hm ↦ hP w n (List.mem_cons_of_mem _ hm)) h)
  | case3 => cases h
  | case4 => cases h
  | case5 => cases h
  | case6 w n moves a c hc ih =>
    have hw : P w := hP w n List.mem_cons_self
    have hcalls : Run M (fun w c s ↦ C w c s ∧ P w) a c := by
      refine Run.mono ?_ (playCalls_handles hc).run
      rintro w' c s ⟨hC, rfl⟩
      exact ⟨hC, hw⟩
    exact hcalls.trans (ih (fun w n hm ↦ hP w n (List.mem_cons_of_mem _ hm)) h)

theorem play_run {moves : List (Move κ ω)} {a b : Config σ κ} (h : play M C moves a = some b) :
    Run M C a b :=
  (play_run_in (fun _ _ _ ↦ trivial) h).mono fun _ _ _ hs ↦ hs.1

end Play

end Rystemd.Worklist
