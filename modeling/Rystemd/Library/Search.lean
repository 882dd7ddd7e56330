import Mathlib.Data.List.Perm.Subperm
import Mathlib.Logic.Relation

namespace Search

open Relation

variable {α : Type} {next : α → List α} {n start : α} {ds stack out result nodes : List α}

/-- A step to another node. -/
def Step (next : α → List α) (a b : α) : Prop := b ∈ next a ∧ b ≠ a

/-- Steps from a node to itself lead nowhere else. -/
theorem step_of_reach {a b : α} (h : ReflTransGen (fun a b ↦ b ∈ next a) a b) :
    ReflTransGen (Step next) a b := by
  induction h with
  | refl => exact .refl
  | @tail b c _ hstep ih =>
    by_cases hc : c = b
    · exact hc ▸ ih
    · exact ih.tail ⟨hstep, hc⟩

/-- What steps to other nodes lead to, apart from the start itself. -/
theorem step_path_iff (hn : n ≠ start) :
    TransGen (Step next) start n ↔ TransGen (fun a b ↦ b ∈ next a) start n := by
  constructor
  · exact TransGen.mono (fun _ _ h ↦ h.1) _ _
  · intro h
    rcases reflTransGen_iff_eq_or_transGen.mp (step_of_reach h.to_reflTransGen) with heq | hstep
    · exact absurd heq hn
    · exact hstep

/-- Steps to other nodes lead back to the start if it is on a cycle through another node. -/
theorem step_cycle_iff : TransGen (Step next) start start ↔ ∃ n, n ≠ start ∧
    TransGen (fun a b ↦ b ∈ next a) start n ∧ TransGen (fun a b ↦ b ∈ next a) n start := by
  constructor
  · intro h
    obtain ⟨n, hstep, hback⟩ := TransGen.head'_iff.mp h
    refine ⟨n, hstep.2, .single hstep.1, ?_⟩
    rcases reflTransGen_iff_eq_or_transGen.mp hback with heq | hback
    · exact absurd heq.symm hstep.2
    · exact (step_path_iff hstep.2.symm).mp hback
  · rintro ⟨n, hn, hpath, hback⟩
    exact ((step_path_iff hn).mpr hpath).trans ((step_path_iff hn.symm).mpr hback)

/-- Everything found so far is reached from the start, and what is next to a node that is no longer
on the stack has been found. -/
structure Found (next : α → List α) (start : α) (stack out : List α) : Prop where
  nodup : out.Nodup
  sound : ∀ d ∈ out, TransGen (Step next) start d
  todo : ∀ d ∈ stack, d = start ∨ d ∈ out
  complete : ∀ a, a = start ∨ a ∈ out → a ∉ stack → ∀ b, Step next a b → b ∈ out

theorem Found.init : Found next start [start] [] where
  nodup := List.nodup_nil
  sound d hd := by cases hd
  todo d hd := .inl (List.mem_singleton.mp hd)
  complete a ha hstack := by
    rcases ha with rfl | ha
    · exact absurd List.mem_cons_self hstack
    · cases ha

variable [DecidableEq α]

/-- The nodes next to `n` that are new go on top of the stack and to the end of what is found. -/
def push (n : α) (ds stack out : List α) : List α × List α :=
  ds.foldl (fun acc d ↦ if d = n ∨ d ∈ acc.2 then acc else (d :: acc.1, acc.2 ++ [d])) (stack, out)

/-- A search takes the nodes off its stack until none is left. -/
inductive Ends (next : α → List α) : List α → List α → List α → Prop
  | done {out : List α} : Ends next [] out out
  | visit {n : α} {stack out result : List α} :
      Ends next (push n (next n) stack out).1 (push n (next n) stack out).2 result →
      Ends next (n :: stack) out result

/-- The nodes that are pushed are found nowhere else. -/
structure Pushed (n : α) (ds stack out fresh : List α) : Prop where
  eq : push n ds stack out = (fresh.reverse ++ stack, out ++ fresh)
  nodup : fresh.Nodup
  mem : ∀ d, d ∈ fresh ↔ d ∈ ds ∧ d ≠ n ∧ d ∉ out

theorem pushed (n : α) (ds stack out : List α) : ∃ fresh, Pushed n ds stack out fresh := by
  induction ds generalizing stack out with
  | nil => exact ⟨[], by simp [push], List.nodup_nil, fun d ↦ by simp⟩
  | cons a ds ih =>
    by_cases ha : a = n ∨ a ∈ out
    · obtain ⟨fresh, heq, hnodup, hmem⟩ := ih stack out
      refine ⟨fresh, ?_, hnodup, fun d ↦ ?_⟩
      · rw [push, List.foldl_cons, if_pos ha]
        exact heq
      · rw [hmem, List.mem_cons]
        constructor
        · exact fun h ↦ ⟨.inr h.1, h.2⟩
        · rintro ⟨rfl | hd, hn, hout⟩
          · exact absurd ha (not_or.mpr ⟨hn, hout⟩)
          · exact ⟨hd, hn, hout⟩
    · obtain ⟨fresh, heq, hnodup, hmem⟩ := ih (a :: stack) (out ++ [a])
      have hfresh : a ∉ fresh := fun h ↦ ((hmem a).mp h).2.2 (by simp)
      obtain ⟨hn, hout⟩ := not_or.mp ha
      refine ⟨a :: fresh, ?_, List.nodup_cons.mpr ⟨hfresh, hnodup⟩, fun d ↦ ?_⟩
      · rw [push, List.foldl_cons, if_neg ha]
        exact heq.trans (by simp)
      · rw [List.mem_cons, hmem, List.mem_cons, List.mem_append, List.mem_singleton]
        constructor
        · rintro (rfl | ⟨hd, hd', h⟩)
          · exact ⟨.inl rfl, hn, hout⟩
          · exact ⟨.inr hd, hd', fun hmem ↦ h (.inl hmem)⟩
        · rintro ⟨rfl | hd, hd', h⟩
          · exact .inl rfl
          · by_cases heq : d = a
            · exact .inl heq
            · exact .inr ⟨hd, hd', not_or.mpr ⟨h, heq⟩⟩

/-- To visit the node on top of the stack keeps the invariant. -/
theorem Found.visit (h : Found next start (n :: stack) out) :
    Found next start (push n (next n) stack out).1 (push n (next n) stack out).2 := by
  obtain ⟨fresh, heq, hnodup, hmem⟩ := pushed n (next n) stack out
  rw [heq]
  constructor
  · apply List.nodup_append.mpr ⟨h.nodup, hnodup, _⟩
    rintro d hout d' hd rfl
    exact ((hmem d).mp hd).2.2 hout
  · intro d hd
    rcases List.mem_append.mp hd with hd | hd
    · exact h.sound d hd
    · obtain ⟨hnext, hne, -⟩ := (hmem d).mp hd
      rcases h.todo n List.mem_cons_self with rfl | hn
      · exact .single ⟨hnext, hne⟩
      · exact (h.sound n hn).tail ⟨hnext, hne⟩
  · intro d hd
    rw [List.mem_append, List.mem_reverse] at hd
    rw [List.mem_append]
    rcases hd with hd | hd
    · exact .inr (.inr hd)
    · exact (h.todo d (List.mem_cons_of_mem n hd)).imp_right .inl
  · intro a ha hstack b hb
    rw [List.mem_append, List.mem_reverse, not_or] at hstack
    rw [List.mem_append] at ha ⊢
    have ha' : a = start ∨ a ∈ out := ha.imp_right fun h ↦ h.resolve_right hstack.1
    by_cases hn : a = n
    · subst hn
      by_cases hout : b ∈ out
      · exact .inl hout
      · exact .inr ((hmem b).mpr ⟨hb.1, hb.2, hout⟩)
    · apply Or.inl
      apply h.complete a ha' _ b hb
      rw [List.mem_cons, not_or]
      exact ⟨hn, hstack.2⟩

theorem Found.ends (hends : Ends next stack out result) (h : Found next start stack out) :
    Found next start [] result := by
  induction hends with
  | done => exact h
  | visit _ ih => exact ih h.visit

/-- A search from `start` finds what steps to other nodes lead to. -/
theorem Ends.mem_iff (h : Ends next [start] [] result) :
    n ∈ result ↔ TransGen (Step next) start n := by
  have hfound := Found.ends h .init
  constructor
  · exact hfound.sound n
  · intro hpath
    induction hpath with
    | single hstep => exact hfound.complete start (.inl rfl) List.not_mem_nil _ hstep
    | tail _ hstep ih => exact hfound.complete _ (.inr ih) List.not_mem_nil _ hstep

theorem Ends.nodup (h : Ends next [start] [] result) : result.Nodup := (Found.ends h .init).nodup

/-- The nodes on the stack and those of `nodes` that are yet to be found. -/
def remaining (nodes stack out : List α) : Nat :=
  stack.length + (nodes.filter (· ∉ out)).length

theorem remaining_push (hnext : ∀ d ∈ next n, d ∈ nodes) :
    remaining nodes (push n (next n) stack out).1 (push n (next n) stack out).2 <
      remaining nodes (n :: stack) out := by
  obtain ⟨fresh, heq, hnodup, hmem⟩ := pushed n (next n) stack out
  have hsub : fresh ⊆ (nodes.filter (· ∉ out)).filter (· ∈ fresh) := by
    intro d hd
    obtain ⟨hd', -, hout⟩ := (hmem d).mp hd
    simpa [hd, hout] using hnext d hd'
  have hfresh := (List.subperm_of_subset hnodup hsub).length_le
  have hsplit := List.length_eq_length_filter_add (l := nodes.filter (· ∉ out)) (· ∈ fresh)
  have hrest : nodes.filter (· ∉ out ++ fresh) =
      (nodes.filter (· ∉ out)).filter (fun d ↦ !decide (d ∈ fresh)) := by
    rw [List.filter_filter]
    apply List.filter_congr
    intro d _
    simp [Bool.and_comm]
  rw [heq, remaining, remaining, hrest]
  simp only [List.length_append, List.length_reverse, List.length_cons]
  omega

end Search
