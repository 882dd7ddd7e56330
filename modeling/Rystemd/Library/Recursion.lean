import Mathlib.Data.List.Basic
import Mathlib.Logic.Relation
import Mathlib.Order.WellFounded

namespace Recursion

open Relation

variable {ν σ ε μ : Type}

/-- A procedure does some work of its own, and then calls itself for some names, up to the first call
that fails. What it returns is collected. -/
structure Procedure (ν σ ε μ : Type) where
  own : ν → σ → Except ε (List μ × List ν) × σ
  finish : ν → List μ → List μ

/-- The result of a call and the state after it, or none while the call still runs. -/
abbrev Outcome (σ ε μ : Type) := Option (Except ε (List μ) × σ)

/-- The calls for some names, after which `out` has been collected. -/
def callAll (call : ν → σ → Outcome σ ε μ) : List ν → List μ → σ → Outcome σ ε μ
  | [], out, s => some (.ok out, s)
  | n :: ns, out, s =>
    match call n s with
    | none => none
    | some (.error e, s) => some (.error e, s)
    | some (.ok out', s) => callAll call ns (out ++ out') s

namespace Procedure

/-- A call in which at most so many calls are nested. -/
def run (p : Procedure ν σ ε μ) : Nat → ν → σ → Outcome σ ε μ
  | 0, _, _ => none
  | depth + 1, n, s =>
    match p.own n s with
    | (.error e, s) => some (.error e, s)
    | (.ok (out, ns), s) => (callAll (p.run depth) ns out s).map fun r ↦ (r.1.map (p.finish n), r.2)

variable {p : Procedure ν σ ε μ} {n n' : ν} {ns ns' : List ν} {out out' : List μ} {s s' s'' : σ}
  {depth depth' : Nat} {r : Except ε (List μ)}

/-- The names are worked off without a failure, each of them with those that it leads to. -/
inductive Done (p : Procedure ν σ ε μ) : List ν → σ → σ → Prop
  | nil {s : σ} : Done p [] s s
  | cons {n : ν} {ns ns' : List ν} {out : List μ} {s s₁ s₂ s₃ : σ} :
      p.own n s = (.ok (out, ns'), s₁) → Done p ns' s₁ s₂ → Done p ns s₂ s₃ → Done p (n :: ns) s s₃

/-- A call comes to another one, when those before it have succeeded. -/
inductive Leads (p : Procedure ν σ ε μ) : ν × σ → ν × σ → Prop
  | mk {n n' : ν} {before after : List ν} {out : List μ} {s s' s'' : σ} :
      p.own n s = (.ok (out, before ++ n' :: after), s') → Done p before s' s'' →
        Leads p (n, s) (n', s'')

theorem callAll_append (call : ν → σ → Outcome σ ε μ) (ns ns' : List ν) (out : List μ) (s : σ) :
    callAll call (ns ++ ns') out s = (callAll call ns out s).bind fun r ↦
      match r with
      | (.error e, s) => some (.error e, s)
      | (.ok out, s) => callAll call ns' out s := by
  induction ns generalizing out s with
  | nil => rfl
  | cons n ns ih =>
    rw [List.cons_append, callAll, callAll]
    split
    · rfl
    · rfl
    · exact ih _ _

theorem Done.append (h : p.Done ns s s') (h' : p.Done ns' s' s'') : p.Done (ns ++ ns') s s'' := by
  induction h with
  | nil => exact h'
  | cons hown hsub _ _ ih => exact .cons hown hsub (ih h')

/-- If nested calls that have ended end in the same way elsewhere, so do calls one after the other. -/
theorem callAll_mono {call call' : ν → σ → Outcome σ ε μ}
    (hcall : ∀ n s r, call n s = some r → call' n s = some r) {o : Except ε (List μ) × σ}
    (h : callAll call ns out s = some o) : callAll call' ns out s = some o := by
  induction ns generalizing out s with
  | nil => exact h
  | cons n ns ih =>
    rw [callAll] at h ⊢
    cases hn : call n s with
    | none =>
      rw [hn] at h
      cases h
    | some r =>
      rw [hn] at h
      rw [hcall n s r hn]
      obtain ⟨_ | out', s'⟩ := r
      · exact h
      · exact ih h

/-- More room for nested calls changes nothing of a call that has ended. -/
theorem run_mono {o : Except ε (List μ) × σ} (h : p.run depth n s = some o)
    (hle : depth ≤ depth') : p.run depth' n s = some o := by
  induction depth generalizing depth' n s o with
  | zero => cases h
  | succ d ih =>
    obtain ⟨d', rfl⟩ : ∃ d', depth' = d' + 1 := ⟨depth' - 1, by omega⟩
    rw [run] at h ⊢
    split at h
    · exact h
    · obtain ⟨r, hr, ho⟩ := Option.map_eq_some_iff.mp h
      rw [callAll_mono (fun n s r hr ↦ ih hr (Nat.le_of_succ_le_succ hle)) hr, Option.map_some, ho]

/-- The calls for names that are worked off without a failure come to the same state, if there is
room for them. -/
theorem Done.callAll_eq (h : p.Done ns s s') {o : Except ε (List μ) × σ}
    (hcall : callAll (p.run depth) ns out s = some o) : ∃ out', o = (.ok out', s') := by
  induction h generalizing depth out o with
  | nil =>
    cases hcall
    exact ⟨out, rfl⟩
  | @cons n ns ns' out₁ s s₁ s₂ s₃ hown hsub hrest ihsub ihrest =>
    rw [callAll] at hcall
    cases depth with
    | zero => cases hcall
    | succ d =>
      rw [run, hown] at hcall
      dsimp only at hcall
      cases hnested : callAll (p.run d) ns' out₁ s₁ with
      | none =>
        rw [hnested] at hcall
        cases hcall
      | some o' =>
        obtain ⟨out', rfl⟩ := ihsub hnested
        rw [hnested] at hcall
        exact ihrest hcall

/-- A call that succeeds works off its name. -/
theorem done_of_run (h : p.run depth n s = some (.ok out, s')) : p.Done [n] s s' := by
  have hall : ∀ {depth : Nat} {ns : List ν} {out out' : List μ} {s s' : σ},
      (∀ n s out s', p.run depth n s = some (.ok out, s') → p.Done [n] s s') →
      callAll (p.run depth) ns out s = some (.ok out', s') → p.Done ns s s' := by
    intro depth ns out out' s s' hrun hcall
    induction ns generalizing out s with
    | nil =>
      cases hcall
      exact .nil
    | cons n ns ih =>
      rw [callAll] at hcall
      split at hcall
      · cases hcall
      · cases hcall
      · next hn => exact (hrun _ _ _ _ hn).append (ih hcall)
  induction depth generalizing n s out s' with
  | zero => cases h
  | succ d ih =>
    rw [run] at h
    split at h
    · cases h
    · next hown =>
      obtain ⟨⟨_ | out', s''⟩, hr, ho⟩ := Option.map_eq_some_iff.mp h
      · cases ho
      · cases ho
        exact .cons hown (hall (fun _ _ _ _ h ↦ ih h) hr) .nil

theorem Done.unique (h : p.Done ns s s') (h' : p.Done ns s s'') : s' = s'' := by
  induction h generalizing s'' with
  | nil =>
    cases h'
    rfl
  | cons hown _ _ ihsub ihrest =>
    cases h' with
    | cons hown' hsub' hrest' =>
      rw [hown] at hown'
      cases hown'
      obtain rfl := ihsub hsub'
      exact ihrest hrest'

theorem Done.split (h : p.Done (ns ++ ns') s s'') : ∃ s', p.Done ns s s' ∧ p.Done ns' s' s'' := by
  induction ns generalizing s with
  | nil => exact ⟨s, .nil, h⟩
  | cons n ns ih =>
    cases h with
    | cons hown hsub hrest =>
      obtain ⟨s', hbefore, hafter⟩ := ih hrest
      exact ⟨s', .cons hown hsub hbefore, hafter⟩

/-- A name that is worked off has its own work done, and the names that it leads to. -/
theorem Done.own (h : p.Done [n] s s') :
    ∃ out ns s₁, p.own n s = (.ok (out, ns), s₁) ∧ p.Done ns s₁ s' := by
  cases h with
  | cons hown hsub hrest =>
    cases hrest
    exact ⟨_, _, _, hown, hsub⟩

/-- A call comes to all names of its list when they are worked off. -/
theorem Done.leads (hown : p.own n s = (.ok (out, ns), s')) (h : p.Done ns s' s'')
    (hmem : n' ∈ ns) : ∃ s₁, p.Leads (n, s) (n', s₁) := by
  obtain ⟨before, after, rfl⟩ := List.append_of_mem hmem
  obtain ⟨s₁, hbefore, -⟩ := h.split
  exact ⟨s₁, .mk hown hbefore⟩

theorem Leads.done {x y : ν × σ} (h : p.Leads x y) (hx : ∃ s', p.Done [x.1] x.2 s') :
    ∃ s', p.Done [y.1] y.2 s' := by
  cases h with
  | mk hown hbefore =>
    obtain ⟨s', hdone⟩ := hx
    obtain ⟨out', ns', s₁, hown', hsub⟩ := hdone.own
    rw [hown] at hown'
    cases hown'
    obtain ⟨s₂, hbefore', hafter⟩ := hsub.split
    obtain rfl := hbefore.unique hbefore'
    rw [← List.singleton_append] at hafter
    obtain ⟨s₃, hhead, -⟩ := hafter.split
    exact ⟨s₃, hhead⟩

/-- The call ends. -/
def Ends (p : Procedure ν σ ε μ) (x : ν × σ) : Prop := ∃ depth o, p.run depth x.1 x.2 = some o

/-- A chain of nested calls without end begins with this one. -/
def Endless (p : Procedure ν σ ε μ) (x : ν × σ) : Prop :=
  ∃ c : Nat → ν × σ, c 0 = x ∧ ∀ i, p.Leads (c i) (c (i + 1))

/-- In a call that ends each call ends that it comes to. -/
theorem Leads.run_ne_none {x y : ν × σ} (h : p.Leads x y)
    (hrun : p.run (depth + 1) x.1 x.2 ≠ none) : p.run depth y.1 y.2 ≠ none := by
  intro hnone
  apply hrun
  cases h with
  | @mk n n' before after out s s' s'' hown hdone =>
    rw [run, hown]
    dsimp only
    rw [callAll_append]
    cases hbefore : callAll (p.run depth) before out s' with
    | none => rfl
    | some o =>
      obtain ⟨out', rfl⟩ := hdone.callAll_eq hbefore
      dsimp only [Option.bind_some]
      rw [callAll, hnone]
      rfl

theorem not_endless_of_run {x : ν × σ} (hrun : p.run depth x.1 x.2 ≠ none) : ¬ p.Endless x := by
  rintro ⟨c, rfl, hc⟩
  induction depth generalizing c with
  | zero => exact hrun rfl
  | succ d ih => exact ih (fun i ↦ c (i + 1)) (fun i ↦ hc (i + 1)) ((hc 0).run_ne_none hrun)

theorem ends_of_leads {x : ν × σ} (h : ∀ y, p.Leads x y → p.Ends y) : p.Ends x := by
  obtain ⟨n, s⟩ := x
  match hown : p.own n s with
  | (.error e, s₁) => exact ⟨1, (.error e, s₁), by rw [run, hown]⟩
  | (.ok (out, ns), s₁) =>
    have hall : ∀ after before out s₂, ns = before ++ after → p.Done before s₁ s₂ →
        ∃ depth o, callAll (p.run depth) after out s₂ = some o := by
      intro after
      induction after with
      | nil => exact fun before out s₂ _ _ ↦ ⟨0, (.ok out, s₂), rfl⟩
      | cons n' after ih =>
        intro before out' s₂ hns hdone
        subst hns
        obtain ⟨d, o, hd⟩ := h _ (.mk hown hdone)
        obtain ⟨e | out₁, s₃⟩ := o
        · refine ⟨d, (.error e, s₃), ?_⟩
          rw [callAll, hd]
        · obtain ⟨d', o', hd'⟩ := ih (before ++ [n']) (out' ++ out₁) s₃ (by simp)
            (hdone.append (done_of_run hd))
          refine ⟨max d d', o', ?_⟩
          rw [callAll, run_mono hd (Nat.le_max_left d d')]
          exact callAll_mono (fun _ _ _ h ↦ run_mono h (Nat.le_max_right d d')) hd'
    obtain ⟨d, o, hd⟩ := hall ns [] out s₁ rfl .nil
    refine ⟨d + 1, (o.1.map (p.finish n), o.2), ?_⟩
    rw [run, hown]
    dsimp only
    rw [hd, Option.map_some]

theorem endless_of_leads_self {x : ν × σ} (h : p.Leads x x) : p.Endless x :=
  ⟨fun _ ↦ x, rfl, fun _ ↦ h⟩

/-- A call ends exactly where no chain of nested calls goes on for ever. -/
theorem ends_iff_not_endless {x : ν × σ} : p.Ends x ↔ ¬ p.Endless x := by
  constructor
  · rintro ⟨depth, o, h⟩
    exact not_endless_of_run (by rw [h]; exact Option.some_ne_none o)
  · intro h
    have hacc : Acc (fun y x ↦ p.Leads x y) x := by
      by_contra hacc
      obtain ⟨c, hc, hdesc⟩ := not_acc_iff_exists_descending_chain.mp hacc
      exact h ⟨c, hc, hdesc⟩
    clear h
    induction hacc with
    | intro x _ ih => exact ends_of_leads fun y hy ↦ ih y hy

/-- The calls that a call comes to, in the states that they find; it is one of them. -/
def Visits (p : Procedure ν σ ε μ) : ν × σ → ν × σ → Prop := ReflTransGen p.Leads

/-- In a call that succeeds, each call does that it comes to. -/
theorem Visits.done {x y : ν × σ} (h : p.Visits x y) (hx : ∃ s', p.Done [x.1] x.2 s') :
    ∃ s', p.Done [y.1] y.2 s' := by
  induction h with
  | refl => exact hx
  | tail _ hleads ih => exact hleads.done ih

/-- A call that leads to no other one comes to itself only. -/
theorem Visits.eq {x y : ν × σ} (h : p.Visits x y) (hx : ∀ z, ¬ p.Leads x z) : y = x := by
  cases h using ReflTransGen.head_induction_on with
  | refl => rfl
  | head hleads => exact absurd hleads (hx _)

section Relations

variable {R : σ → σ → Prop} {x y : ν × σ} {o : Except ε (List μ) × σ} {after before : List ν}
  {s₁ : σ}

/-- The calls that are left over keep a relation that each of them keeps. -/
theorem callAll_rel (hrefl : ∀ s, R s s) (htrans : ∀ s s' s'', R s s' → R s' s'' → R s s'')
    (hcall : ∀ y o, p.Leads x y → p.run depth y.1 y.2 = some o → R y.2 o.2)
    (hown : p.own x.1 x.2 = (.ok (out, before ++ after), s')) (hdone : p.Done before s' s'')
    (h : callAll (p.run depth) after out' s'' = some o) : R s'' o.2 := by
  induction after generalizing before out' s'' with
  | nil =>
    cases h
    exact hrefl s''
  | cons n after ih =>
    have hleads : p.Leads x (n, s'') := .mk hown hdone
    rw [callAll] at h
    cases hn : p.run depth n s'' with
    | none =>
      rw [hn] at h
      cases h
    | some o' =>
      have hstep := hcall _ o' hleads hn
      rw [hn] at h
      obtain ⟨e | out₁, s₁⟩ := o'
      · cases h
        exact hstep
      · refine htrans _ _ _ hstep (ih ?_ (hdone.append (done_of_run hn)) h)
        rw [List.append_assoc]
        exact hown

/-- After its own work, a call keeps a relation that the work of each call keeps. -/
theorem own_rel (hrefl : ∀ s, R s s) (htrans : ∀ s s' s'', R s s' → R s' s'' → R s s'')
    (hstep : ∀ y, p.Visits x y → R y.2 (p.own y.1 y.2).2)
    (h : p.run depth x.1 x.2 = some o) : R (p.own x.1 x.2).2 o.2 := by
  induction depth generalizing x o with
  | zero => cases h
  | succ d ih =>
    rw [run] at h
    split at h
    · next hown =>
      cases h
      rw [hown]
      exact hrefl _
    · next out ns s₁ hown =>
      obtain ⟨o', hcalls, rfl⟩ := Option.map_eq_some_iff.mp h
      rw [hown]
      change R s₁ o'.2
      refine callAll_rel hrefl htrans (fun y o hleads hy ↦ ?_) hown .nil hcalls
      have hvisits := ih (fun z hz ↦ hstep z (.head hleads hz)) hy
      exact htrans _ _ _ (hstep y (.single hleads)) hvisits

/-- A call keeps a relation that the work of each call keeps. -/
theorem run_rel (hrefl : ∀ s, R s s) (htrans : ∀ s s' s'', R s s' → R s' s'' → R s s'')
    (hstep : ∀ y, p.Visits x y → R y.2 (p.own y.1 y.2).2)
    (h : p.run depth x.1 x.2 = some o) : R x.2 o.2 :=
  htrans _ _ _ (hstep x .refl) (own_rel hrefl htrans hstep h)

/-- So does what comes after the work of a call that it comes to. -/
theorem visited_rel (hrefl : ∀ s, R s s) (htrans : ∀ s s' s'', R s s' → R s' s'' → R s s'')
    (hstep : ∀ y, p.Visits x y → R y.2 (p.own y.1 y.2).2) (hxy : p.Visits x y)
    (h : p.run depth x.1 x.2 = some o) : R (p.own y.1 y.2).2 o.2 := by
  induction hxy using ReflTransGen.head_induction_on generalizing depth o with
  | refl => exact own_rel hrefl htrans hstep h
  | @head x z hleads hzy ih =>
    have hstepz : ∀ y, p.Visits z y → R y.2 (p.own y.1 y.2).2 :=
      fun y hy ↦ hstep y (.head hleads hy)
    cases depth with
    | zero => cases h
    | succ d =>
      cases hleads with
      | @mk n n' before after out s s' s'' hown hdone =>
        rw [run, hown] at h
        obtain ⟨o', hcalls, rfl⟩ := Option.map_eq_some_iff.mp h
        rw [callAll_append] at hcalls
        obtain ⟨o₁, hbefore, hcalls⟩ := Option.bind_eq_some_iff.mp hcalls
        obtain ⟨out', rfl⟩ := hdone.callAll_eq hbefore
        dsimp only at hcalls
        rw [callAll] at hcalls
        cases hn : p.run d n' s'' with
        | none =>
          rw [hn] at hcalls
          cases hcalls
        | some o₂ =>
          rw [hn] at hcalls
          have hz := ih hstepz hn
          obtain ⟨e | out₁, s₁⟩ := o₂
          · cases hcalls
            exact hz
          · have hown' : p.own (n, s).1 (n, s).2 = (.ok (out, (before ++ [n']) ++ after), s') := by
              rw [List.append_assoc]
              exact hown
            refine htrans _ _ _ hz ?_
            change R s₁ o'.2
            refine callAll_rel hrefl htrans (fun y o hleads hy ↦ ?_) hown'
              (hdone.append (done_of_run hn)) hcalls
            exact run_rel hrefl htrans (fun z hz ↦ hstep z (.head hleads hz)) hy

/-- The states that the calls find are related if all work keeps the relation. -/
theorem Visits.rel (hrefl : ∀ s, R s s) (htrans : ∀ s s' s'', R s s' → R s' s'' → R s s'')
    (hstep : ∀ n s, R s (p.own n s).2) (h : p.Visits x y) : R x.2 y.2 := by
  have hdone : ∀ {ns s s'}, p.Done ns s s' → R s s' := by
    intro ns s s' h
    induction h with
    | nil => exact hrefl _
    | @cons n ns ns' out s s₁ s₂ s₃ hown _ _ ihsub ihrest =>
      have hfirst := hstep n s
      rw [hown] at hfirst
      exact htrans _ _ _ hfirst (htrans _ _ _ ihsub ihrest)
  induction h with
  | refl => exact hrefl _
  | tail _ hleads ih =>
    cases hleads with
    | @mk n n' before after out s s' s'' hown hbefore =>
      have hfirst := hstep n s
      rw [hown] at hfirst
      exact htrans _ _ _ ih (htrans _ _ _ hfirst (hdone hbefore))

end Relations

end Procedure

end Recursion
