import Mathlib.Data.List.Infix

namespace Segments

variable {α : Type} {a : α} {l s rest : List α} {segs : List (List α)}

/-- No separator stands at an end of a list or next to another one. -/
structure Tight (a : α) (l : List α) : Prop where
  ne : l ≠ []
  head : l.head? ≠ some a
  last : l.getLast? ≠ some a
  apart : ¬ [a, a] <:+: l

theorem pair_infix_append (h : a ∉ s) :
    [a, a] <:+: s ++ a :: rest ↔ rest.head? = some a ∨ [a, a] <:+: rest := by
  induction s with
  | nil =>
    rw [List.nil_append, List.infix_cons_iff, List.cons_prefix_cons]
    cases rest with
    | nil => simp
    | cons b rest => simp [eq_comm]
  | cons b s ih =>
    rw [List.mem_cons, not_or] at h
    obtain ⟨hb, hs⟩ := h
    rw [List.cons_append, List.infix_cons_iff, List.cons_prefix_cons, ih hs]
    simp [hb]

/-- What stands before the first separator is not empty, and the rest is tight. -/
theorem tight_append (h : a ∉ s) : Tight a (s ++ a :: rest) ↔ s ≠ [] ∧ Tight a rest := by
  constructor
  · rintro ⟨-, hhead, hlast, hapart⟩
    rw [pair_infix_append h, not_or] at hapart
    rw [List.getLast?_append, List.getLast?_cons] at hlast
    refine ⟨?_, ?_, hapart.1, ?_, hapart.2⟩
    · rintro rfl
      exact hhead rfl
    · rintro rfl
      exact hlast rfl
    · intro hrest
      rw [hrest] at hlast
      exact hlast rfl
  · rintro ⟨hs, hne, hhead, hlast, hapart⟩
    refine ⟨by simp, ?_, ?_, ?_⟩
    · intro hmem
      rw [List.head?_append_of_ne_nil _ hs] at hmem
      exact h (List.mem_of_mem_head? hmem)
    · obtain ⟨b, hb⟩ := Option.ne_none_iff_exists'.mp (mt List.getLast?_eq_none_iff.mp hne)
      rw [List.getLast?_append, List.getLast?_cons, hb]
      rw [hb] at hlast
      exact hlast
    · rw [pair_infix_append h, not_or]
      exact ⟨hhead, hapart⟩

/-- Segments without a separator are not empty if the list they are joined to is tight. -/
theorem tight_intercalate (hsegs : segs ≠ []) (h : ∀ s ∈ segs, a ∉ s) :
    Tight a ([a].intercalate segs) ↔ ∀ s ∈ segs, s ≠ [] := by
  induction segs with
  | nil => exact absurd rfl hsegs
  | cons s segs ih =>
    have hs := h s List.mem_cons_self
    cases segs with
    | nil =>
      rw [List.intercalate_singleton, List.forall_mem_singleton]
      constructor
      · exact Tight.ne
      · intro hne
        refine ⟨hne, fun hhead ↦ hs (List.mem_of_mem_head? hhead),
          fun hlast ↦ hs (List.mem_of_getLast? hlast), fun hpair ↦ ?_⟩
        exact hs (hpair.subset List.mem_cons_self)
    | cons t segs =>
      rw [List.intercalate_cons_cons, List.append_assoc, List.singleton_append, tight_append hs,
        ih (List.cons_ne_nil t segs) fun s' hs' ↦ h s' (List.mem_cons_of_mem _ hs')]
      exact (List.forall_mem_cons (p := (· ≠ []))).symm

theorem mem_intercalate_of_mem {x : α} (hs : s ∈ segs) (hx : x ∈ s) :
    x ∈ [a].intercalate segs := by
  induction segs with
  | nil => cases hs
  | cons t segs ih =>
    cases segs with
    | nil =>
      rw [List.intercalate_singleton, ← List.mem_singleton.mp hs]
      exact hx
    | cons u segs =>
      rw [List.intercalate_cons_cons, List.mem_append, List.mem_append]
      rcases List.mem_cons.mp hs with rfl | hs
      · exact .inl (.inl hx)
      · exact .inr (ih hs)

theorem mem_intercalate {x : α} (hx : x ∈ [a].intercalate segs) :
    x = a ∨ ∃ s ∈ segs, x ∈ s := by
  induction segs with
  | nil => cases hx
  | cons t segs ih =>
    cases segs with
    | nil =>
      rw [List.intercalate_singleton] at hx
      exact .inr ⟨t, List.mem_cons_self, hx⟩
    | cons u segs =>
      rw [List.intercalate_cons_cons, List.mem_append, List.mem_append, List.mem_singleton] at hx
      rcases hx with (hx | hx) | hx
      · exact .inr ⟨t, List.mem_cons_self, hx⟩
      · exact .inl hx
      · apply (ih hx).imp_right
        rintro ⟨s, hs, hxs⟩
        exact ⟨s, List.mem_cons_of_mem _ hs, hxs⟩

/-- To replace the separators joins the segments by other ones. -/
theorem map_intercalate [DecidableEq α] {b : α} (h : ∀ s ∈ segs, a ∉ s) :
    ([a].intercalate segs).map (fun c ↦ if c = a then b else c) = [b].intercalate segs := by
  have hmap : ∀ s ∈ segs, s.map (fun c ↦ if c = a then b else c) = s := by
    intro s hs
    apply (List.map_congr_left _).trans (List.map_id s)
    intro c hc
    apply if_neg
    rintro rfl
    exact h s hs hc
  induction segs with
  | nil => rfl
  | cons s segs ih =>
    have hs := hmap s List.mem_cons_self
    have hrest := ih (fun s' hs' ↦ h s' (List.mem_cons_of_mem _ hs')) fun s' hs' ↦
      hmap s' (List.mem_cons_of_mem _ hs')
    cases segs with
    | nil => rw [List.intercalate_singleton, List.intercalate_singleton, hs]
    | cons t segs =>
      rw [List.intercalate_cons_cons, List.intercalate_cons_cons, List.map_append, List.map_append,
        hs, hrest, List.map_singleton, if_pos rfl]

end Segments
