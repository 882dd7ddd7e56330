import Mathlib.Data.List.Basic

namespace Glob

/-- An element of a pattern over symbols `α`. -/
inductive Element (α : Type)
  | any
  | one
  | exact (w : List α)

def Element.Accepts {α : Type} : Element α → List α → Prop
  | any, _ => True
  | one, v => v.length = 1
  | exact w, v => v = w

/-- A list can be split into pieces that the elements of a pattern accept. -/
inductive Matches {α : Type} : List (Element α) → List α → Prop
  | nil : Matches [] []
  | cons {e : Element α} {v w : List α} {p : List (Element α)} :
      e.Accepts v → Matches p w → Matches (e :: p) (v ++ w)

/-- The element of a character of a glob, whose literals are spelt by `spell`. -/
def element {α : Type} (spell : Char → List α) (c : Char) : Element α :=
  if c = '*' then .any else if c = '?' then .one else .exact (spell c)

def elements {α : Type} (spell : Char → List α) (pat : List Char) : List (Element α) :=
  pat.map (element spell)

def isWild (c : Char) : Bool := c = '*' || c = '?'

variable {α : Type} {e : Element α} {p : List (Element α)} {w : List α} {spell : Char → List α}
  {c : Char} {run rest pat : List Char} {n : Nat}

theorem matches_nil_iff : Matches [] w ↔ w = [] := by
  constructor
  · intro h
    cases h
    rfl
  · rintro rfl
    exact .nil

theorem matches_cons_iff :
    Matches (e :: p) w ↔ ∃ v w', w = v ++ w' ∧ e.Accepts v ∧ Matches p w' := by
  constructor
  · intro h
    cases h with
    | cons he hp => exact ⟨_, _, rfl, he, hp⟩
  · rintro ⟨v, w', rfl, he, hp⟩
    exact .cons he hp

theorem element_literal (h : isWild c = false) : element spell c = .exact (spell c) := by
  rw [isWild, Bool.or_eq_false_iff, decide_eq_false_iff_not, decide_eq_false_iff_not] at h
  rw [element, if_neg h.1, if_neg h.2]

theorem matches_star_iff : Matches (elements spell ('*' :: rest)) w ↔
    ∃ v w', w = v ++ w' ∧ Matches (elements spell rest) w' := by
  constructor
  · intro h
    obtain ⟨v, w', hw, -, hrest⟩ := matches_cons_iff.mp h
    exact ⟨v, w', hw, hrest⟩
  · rintro ⟨v, w', hw, hrest⟩
    exact matches_cons_iff.mpr ⟨v, w', hw, trivial, hrest⟩

theorem matches_one_iff : Matches (elements spell ('?' :: rest)) w ↔
    ∃ a w', w = a :: w' ∧ Matches (elements spell rest) w' := by
  constructor
  · intro h
    obtain ⟨v, w', rfl, hv, hrest⟩ := matches_cons_iff.mp h
    obtain ⟨a, rfl⟩ := List.length_eq_one_iff.mp hv
    exact ⟨a, w', rfl, hrest⟩
  · rintro ⟨a, w', rfl, hrest⟩
    exact matches_cons_iff.mpr ⟨[a], w', rfl, rfl, hrest⟩

theorem matches_literal_iff (h : isWild c = false) : Matches (elements spell (c :: rest)) w ↔
    ∃ w', w = spell c ++ w' ∧ Matches (elements spell rest) w' := by
  rw [elements, List.map_cons, element_literal h, matches_cons_iff]
  constructor
  · rintro ⟨v, w', rfl, rfl, hrest⟩
    exact ⟨w', rfl, hrest⟩
  · rintro ⟨w', rfl, hrest⟩
    exact ⟨_, w', rfl, rfl, hrest⟩

/-- The number of symbols that a run of wildcards can stand for. -/
structure Fits (run : List Char) (n : Nat) : Prop where
  least : run.count '?' ≤ n
  most : '*' ∉ run → n = run.count '?'

theorem fits_count : Fits run (run.count '?') := ⟨Nat.le_refl _, fun _ ↦ rfl⟩

theorem fits_star : Fits ('*' :: run) n ↔ ∃ m ≤ n, Fits run m := by
  have hcount : ('*' :: run).count '?' = run.count '?' := List.count_cons_of_ne (by decide)
  constructor
  · rintro ⟨hleast, -⟩
    rw [hcount] at hleast
    exact ⟨_, hleast, fits_count⟩
  · rintro ⟨m, hm, hleast, -⟩
    refine ⟨?_, fun hstar ↦ absurd List.mem_cons_self hstar⟩
    rw [hcount]
    exact Nat.le_trans hleast hm

theorem fits_one : Fits ('?' :: run) n ↔ ∃ m, n = m + 1 ∧ Fits run m := by
  have hcount : ('?' :: run).count '?' = run.count '?' + 1 := List.count_cons_self
  have hstar : '*' ∈ '?' :: run ↔ '*' ∈ run := by simp
  constructor
  · rintro ⟨hleast, hmost⟩
    rw [hcount] at hleast hmost
    rw [hstar] at hmost
    refine ⟨n - 1, by omega, by omega, fun h ↦ ?_⟩
    have := hmost h
    omega
  · rintro ⟨m, rfl, hleast, hmost⟩
    refine ⟨by omega, fun h ↦ ?_⟩
    have := hmost (mt hstar.mpr h)
    omega

/-- A run of wildcards, and what is behind it, is matched by what has the right length, and the
rest. -/
theorem matches_run_iff (h : ∀ c ∈ run, isWild c) : Matches (elements spell (run ++ rest)) w ↔
    ∃ v w', w = v ++ w' ∧ Fits run v.length ∧ Matches (elements spell rest) w' := by
  induction run generalizing w with
  | nil =>
    constructor
    · exact fun hrest ↦ ⟨[], w, rfl, ⟨Nat.le_refl 0, fun _ ↦ rfl⟩, hrest⟩
    · rintro ⟨v, w', rfl, hfits, hrest⟩
      obtain rfl := List.length_eq_zero_iff.mp (hfits.most List.not_mem_nil)
      exact hrest
  | cons c run ih =>
    have hrun := fun c hc ↦ h c (List.mem_cons_of_mem _ hc)
    have hc := h c List.mem_cons_self
    rw [isWild, Bool.or_eq_true, decide_eq_true_eq, decide_eq_true_eq] at hc
    rcases hc with rfl | rfl
    · rw [List.cons_append, matches_star_iff]
      constructor
      · rintro ⟨v, _, rfl, hrest⟩
        obtain ⟨v', w', rfl, hfits, hrest⟩ := (ih hrun).mp hrest
        refine ⟨v ++ v', w', (List.append_assoc ..).symm, fits_star.mpr ⟨_, ?_, hfits⟩, hrest⟩
        rw [List.length_append]
        exact Nat.le_add_left ..
      · rintro ⟨v, w', rfl, hfits, hrest⟩
        obtain ⟨m, hm, hfits⟩ := fits_star.mp hfits
        refine ⟨v.take (v.length - m), v.drop (v.length - m) ++ w', ?_, (ih hrun).mpr
          ⟨_, w', rfl, ?_, hrest⟩⟩
        · rw [← List.append_assoc, List.take_append_drop]
        · rw [List.length_drop, Nat.sub_sub_self hm]
          exact hfits
    · rw [List.cons_append, matches_one_iff]
      constructor
      · rintro ⟨a, _, rfl, hrest⟩
        obtain ⟨v, w', rfl, hfits, hrest⟩ := (ih hrun).mp hrest
        exact ⟨a :: v, w', rfl, fits_one.mpr ⟨_, rfl, hfits⟩, hrest⟩
      · rintro ⟨v, w', rfl, hfits, hrest⟩
        obtain ⟨m, hm, hm'⟩ := fits_one.mp hfits
        obtain ⟨a, v, rfl⟩ := List.exists_cons_of_length_eq_add_one hm
        rw [List.length_cons, Nat.add_right_cancel_iff] at hm
        subst hm
        exact ⟨a, v ++ w', rfl, (ih hrun).mpr ⟨v, w', rfl, hm', hrest⟩⟩

theorem matches_wild_iff (h : ∀ c ∈ run, isWild c) :
    Matches (elements spell run) w ↔ Fits run w.length := by
  have hnil : run = run ++ [] := (List.append_nil run).symm
  rw [hnil, matches_run_iff h, List.append_nil]
  constructor
  · rintro ⟨v, w', rfl, hfits, hnil⟩
    rw [matches_nil_iff.mp hnil, List.append_nil]
    exact hfits
  · intro hfits
    exact ⟨w, [], (List.append_nil w).symm, hfits, .nil⟩

theorem matches_segment_iff (h : ∀ c ∈ run, isWild c) (hc : isWild c = false) :
    Matches (elements spell (run ++ c :: rest)) w ↔ ∃ v w', w = v ++ (spell c ++ w') ∧
      Fits run v.length ∧ Matches (elements spell rest) w' := by
  rw [matches_run_iff h]
  constructor
  · rintro ⟨v, _, rfl, hfits, hrest⟩
    obtain ⟨w', rfl, hrest'⟩ := (matches_literal_iff hc).mp hrest
    exact ⟨v, w', rfl, hfits, hrest'⟩
  · rintro ⟨v, w', rfl, hfits, hrest⟩
    exact ⟨v, _, rfl, hfits, (matches_literal_iff hc).mpr ⟨w', rfl, hrest⟩⟩

/-- The runs of wildcards between the literals of a pattern. -/
def runs (pat : List Char) : List (List Char) := pat.splitOnP fun c ↦ !isWild c

theorem runs_wild (h : ∀ c ∈ run, isWild c) : runs run = [run] := by
  apply List.splitOnP_eq_singleton
  intro c hc
  rw [h c hc]
  rfl

theorem runs_segment (h : ∀ c ∈ run, isWild c) (hc : isWild c = false) :
    runs (run ++ c :: rest) = run :: runs rest := by
  apply List.splitOnP_append_cons_of_forall_mem
  · intro d hd
    rw [h d hd]
    rfl
  · rw [hc]
    rfl

/-- A pattern is a run of wildcards, or one with a literal and a pattern behind it. -/
theorem pattern_induction {motive : List Char → Prop}
    (run : ∀ run, (∀ c ∈ run, isWild c) → motive run)
    (literal : ∀ run c rest, (∀ c ∈ run, isWild c) → isWild c = false → motive rest →
      motive (run ++ c :: rest)) (pat : List Char) : motive pat := by
  induction hlength : pat.length using Nat.strongRecOn generalizing pat with
  | _ n ih =>
    have hsplit := List.takeWhile_append_dropWhile (p := isWild) (l := pat)
    have hwild : ∀ c ∈ pat.takeWhile isWild, isWild c := List.all_eq_true.mp List.all_takeWhile
    cases hrest : pat.dropWhile isWild with
    | nil =>
      rw [hrest, List.append_nil] at hsplit
      rw [← hsplit]
      exact run _ hwild
    | cons c rest =>
      have hc : isWild c = false := by
        have hnot := List.head?_dropWhile_not isWild pat
        rw [hrest] at hnot
        exact hnot
      rw [hrest] at hsplit
      rw [← hsplit]
      apply literal _ c rest hwild hc
      apply ih rest.length _ rest rfl
      rw [← hlength, ← hsplit, List.length_append, List.length_cons]
      omega

end Glob
