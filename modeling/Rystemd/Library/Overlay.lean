import Mathlib.Data.List.Basic

namespace Overlay

variable {ρ κ ν ε : Type}

variable {read : ρ → κ → Except ε (Option ν)} {acc acc' : List κ × List ν}

/-- What a part of a scan did: `todo` gives the root from which it took a name. -/
structure Visited (read : ρ → κ → Except ε (Option ν)) (todo : κ → Option ρ)
    (acc acc' : List κ × List ν) : Prop where
  seen : ∀ k, k ∈ acc'.1 ↔ k ∈ acc.1 ∨ (todo k).isSome
  reads : ∀ k r, k ∉ acc.1 → todo k = some r → ∃ v, read r k = .ok v
  values : ∀ x, x ∈ acc'.2 ↔ x ∈ acc.2 ∨
    ∃ k r, k ∉ acc.1 ∧ todo k = some r ∧ read r k = .ok (some x)

theorem Visited.none : Visited read (fun _ ↦ none) acc acc where
  seen := by simp
  reads _ _ _ h := by cases h
  values := by simp

theorem Visited.trans {todo todo' : κ → Option ρ} {acc'' : List κ × List ν}
    (h : Visited read todo acc acc') (h' : Visited read todo' acc' acc'') :
    Visited read (fun k ↦ (todo k).or (todo' k)) acc acc'' where
  seen k := by rw [h'.seen, h.seen, Option.isSome_or, Bool.or_eq_true, or_assoc]
  reads k r hk hr := by
    rcases Option.or_eq_some_iff.mp hr with ht | ⟨hn, ht⟩
    · exact h.reads k r hk ht
    · refine h'.reads k r ?_ ht
      rw [h.seen, hn]
      simpa using hk
  values x := by
    rw [h'.values, h.values, or_assoc]
    refine or_congr_right ⟨?_, ?_⟩
    · rintro (⟨k, r, hk, ht, hx⟩ | ⟨k, r, hk, ht, hx⟩)
      · exact ⟨k, r, hk, by rw [ht, Option.some_or], hx⟩
      · rw [h.seen, not_or, Option.not_isSome_iff_eq_none] at hk
        exact ⟨k, r, hk.1, by rw [hk.2, Option.none_or, ht], hx⟩
    · rintro ⟨k, r, hk, ht, hx⟩
      rcases Option.or_eq_some_iff.mp ht with ht | ⟨hn, ht⟩
      · exact .inl ⟨k, r, hk, ht, hx⟩
      · refine .inr ⟨k, r, ?_, ht, hx⟩
        rw [h.seen, hn]
        simpa using hk

variable [DecidableEq κ]

/-- Read a name unless it has been seen in an earlier root. -/
def visit (read : ρ → κ → Except ε (Option ν)) (root : ρ) (acc : List κ × List ν) (name : κ) :
    Except ε (List κ × List ν) :=
  if name ∈ acc.1 then .ok acc
  else (read root name).map fun v ↦ (name :: acc.1, acc.2 ++ v.toList)

def visitRoot (names : ρ → Except ε (List κ)) (read : ρ → κ → Except ε (Option ν))
    (acc : List κ × List ν) (root : ρ) : Except ε (List κ × List ν) :=
  (names root).bind fun l ↦ l.foldlM (visit read root) acc

/-- What the roots have under the names that they list, each from the first root that lists it.
The first error ends the scan. -/
def scan (names : ρ → Except ε (List κ)) (read : ρ → κ → Except ε (Option ν)) (roots : List ρ) :
    Except ε (List ν) :=
  (roots.foldlM (visitRoot names read) ([], [])).map Prod.snd

/-- The first root that lists a name. -/
def owner (lists : ρ → List κ) (roots : List ρ) (k : κ) : Option ρ :=
  roots.find? fun r ↦ k ∈ lists r

variable {names : ρ → Except ε (List κ)} {lists : ρ → List κ}
variable {r : ρ} {roots : List ρ} {k : κ} {l : List κ} {x : ν}

theorem owner_cons : owner lists (r :: roots) k =
    if k ∈ lists r then some r else owner lists roots k := by
  rw [owner, List.find?_cons]
  by_cases h : k ∈ lists r
  · simp [h]
  · simp [h, owner]

theorem visit_visited (h : visit read r acc k = .ok acc') :
    Visited read (fun k' ↦ if k' = k then some r else none) acc acc' := by
  rw [visit] at h
  split at h
  · next hk =>
    cases h
    constructor
    · intro k'
      by_cases he : k' = k <;> simp [he, hk]
    · intro k' r' hk' ht
      split at ht
      · next he => exact absurd hk (he ▸ hk')
      · cases ht
    · intro x
      refine ⟨.inl, ?_⟩
      rintro (hx | ⟨k', r', hk', ht, -⟩)
      · exact hx
      · split at ht
        · next he => exact absurd hk (he ▸ hk')
        · cases ht
  · next hk =>
    cases hr : read r k with
    | error e => rw [hr] at h; cases h
    | ok v =>
      rw [hr] at h
      cases h
      constructor
      · intro k'
        by_cases he : k' = k <;> simp [he]
      · intro k' r' hk' ht
        split at ht
        · next he => cases ht; subst he; exact ⟨v, hr⟩
        · cases ht
      · intro x
        rw [List.mem_append, Option.mem_toList]
        refine or_congr_right ⟨?_, ?_⟩
        · intro hx
          exact ⟨k, r, hk, if_pos rfl, by rw [hr]; exact congrArg _ hx⟩
        · rintro ⟨k', r', -, ht, hx⟩
          split at ht
          · next he =>
            cases ht
            rw [he, hr] at hx
            exact Except.ok.inj hx
          · cases ht

theorem visits_visited (h : l.foldlM (visit read r) acc = .ok acc') :
    Visited read (fun k ↦ if k ∈ l then some r else none) acc acc' := by
  induction l generalizing acc with
  | nil =>
    cases h
    simpa using Visited.none
  | cons a l ih =>
    rw [List.foldlM_cons] at h
    cases ha : visit read r acc a with
    | error e => rw [ha] at h; cases h
    | ok acc₁ =>
      rw [ha] at h
      convert (visit_visited ha).trans (ih h) using 2 with k
      by_cases hk : k = a <;> simp [hk]

theorem visits_isOk (h : ∀ k ∈ l, k ∉ acc.1 → ∃ v, read r k = .ok v) :
    ∃ acc', l.foldlM (visit read r) acc = .ok acc' := by
  induction l generalizing acc with
  | nil => exact ⟨acc, rfl⟩
  | cons a l ih =>
    rw [List.foldlM_cons]
    obtain ⟨acc₁, ha⟩ : ∃ acc₁, visit read r acc a = .ok acc₁ := by
      rw [visit]
      split
      · exact ⟨acc, rfl⟩
      · next hk =>
        obtain ⟨v, hv⟩ := h a List.mem_cons_self hk
        exact ⟨_, by rw [hv]; rfl⟩
    rw [ha]
    refine ih fun k hk hseen ↦ h k (List.mem_cons_of_mem a hk) fun hacc ↦ hseen ?_
    rw [(visit_visited ha).seen]
    exact .inl hacc

theorem roots_visited (h : roots.foldlM (visitRoot names read) acc = .ok acc')
    (hl : ∀ r ∈ roots, ∀ l, names r = .ok l → l = lists r) :
    (∀ r ∈ roots, names r = .ok (lists r)) ∧ Visited read (owner lists roots) acc acc' := by
  induction roots generalizing acc with
  | nil =>
    cases h
    exact ⟨fun _ hr ↦ (by cases hr), .none⟩
  | cons r roots ih =>
    rw [List.foldlM_cons] at h
    cases hr : names r with
    | error e => rw [visitRoot, hr] at h; cases h
    | ok l =>
      rw [visitRoot, hr] at h
      cases hv : l.foldlM (visit read r) acc with
      | error e =>
        change (l.foldlM (visit read r) acc).bind _ = _ at h
        rw [hv] at h
        cases h
      | ok acc₁ =>
        change (l.foldlM (visit read r) acc).bind _ = _ at h
        rw [hv] at h
        obtain ⟨hnames, hrest⟩ := ih h fun r' hr' ↦ hl r' (List.mem_cons_of_mem r hr')
        have hlr := hl r List.mem_cons_self l hr
        refine ⟨?_, ?_⟩
        · intro r' hr'
          rcases List.mem_cons.mp hr' with rfl | hr'
          · rw [hr, hlr]
          · exact hnames r' hr'
        · convert (visits_visited hv).trans hrest using 2 with k
          rw [owner_cons, hlr]
          split <;> simp

theorem roots_isOk (hl : ∀ r ∈ roots, names r = .ok (lists r))
    (h : ∀ k r, k ∉ acc.1 → owner lists roots k = some r → ∃ v, read r k = .ok v) :
    ∃ acc', roots.foldlM (visitRoot names read) acc = .ok acc' := by
  induction roots generalizing acc with
  | nil => exact ⟨acc, rfl⟩
  | cons r roots ih =>
    obtain ⟨acc₁, hv⟩ : ∃ acc₁, (lists r).foldlM (visit read r) acc = .ok acc₁ := by
      refine visits_isOk fun k hk hseen ↦ h k r hseen ?_
      rw [owner_cons, if_pos hk]
    have hroot : visitRoot names read acc r = .ok acc₁ := by
      rw [visitRoot, hl r List.mem_cons_self]
      exact hv
    rw [List.foldlM_cons, hroot]
    refine ih (fun r' hr' ↦ hl r' (List.mem_cons_of_mem r hr')) fun k r' hk ht ↦ ?_
    rw [(visits_visited hv).seen, not_or] at hk
    refine h k r' hk.1 ?_
    rw [owner_cons, if_neg, ht]
    intro hmem
    simp [hmem] at hk

/-- A scan succeeds if all roots can be listed and every name can be read where it is first. -/
theorem scan_isOk (hl : ∀ r ∈ roots, ∀ l, names r = .ok l → l = lists r) :
    (∃ vs, scan names read roots = .ok vs) ↔
      (∀ r ∈ roots, names r = .ok (lists r)) ∧
        ∀ k r, owner lists roots k = some r → ∃ v, read r k = .ok v := by
  rw [scan]
  constructor
  · rintro ⟨vs, h⟩
    cases hf : roots.foldlM (visitRoot names read) ([], []) with
    | error e => rw [hf] at h; cases h
    | ok acc =>
      obtain ⟨hnames, hv⟩ := roots_visited hf hl
      exact ⟨hnames, fun k r ↦ hv.reads k r List.not_mem_nil⟩
  · rintro ⟨hnames, hr⟩
    have hacc : ∃ acc, roots.foldlM (visitRoot names read) ([], []) = .ok acc :=
      roots_isOk hnames fun k r _ ↦ hr k r
    obtain ⟨acc, hacc⟩ := hacc
    exact ⟨acc.2, by rw [hacc]; rfl⟩

theorem mem_scan {vs : List ν} (hl : ∀ r ∈ roots, ∀ l, names r = .ok l → l = lists r)
    (h : scan names read roots = .ok vs) :
    x ∈ vs ↔ ∃ k r, owner lists roots k = some r ∧ read r k = .ok (some x) := by
  rw [scan] at h
  cases hf : roots.foldlM (visitRoot names read) ([], []) with
  | error e => rw [hf] at h; cases h
  | ok acc =>
    rw [hf] at h
    cases h
    simp [(roots_visited hf hl).2.values]

end Overlay
