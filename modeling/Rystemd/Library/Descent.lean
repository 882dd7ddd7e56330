import Mathlib.Data.List.Infix

namespace Descent

variable {α : Type} [DecidableEq α] (up : α)

/-- The directory that a way leads to; `up` leaves a directory, and the root is its own parent. -/
def walk (dir way : List α) : List α :=
  way.foldl (fun d c ↦ if c = up then d.dropLast else d ++ [c]) dir

/-- How deep a way leads. -/
def depth (n : Nat) (way : List α) : Nat := way.foldl (fun n c ↦ if c = up then n - 1 else n + 1) n

/-- A way never leads above where it has begun, `n` levels higher. -/
def stays : Nat → List α → Bool
  | _, [] => true
  | n, c :: way => if c = up then n ≠ 0 && stays (n - 1) way else stays (n + 1) way

variable {up} {base rest way : List α} {c : α}

theorem walk_append (dir way way' : List α) :
    walk up dir (way ++ way') = walk up (walk up dir way) way' := List.foldl_append

theorem walk_cons_up (dir way : List α) : walk up dir (up :: way) = walk up dir.dropLast way := by
  simp [walk]

theorem walk_cons_of_ne (h : c ≠ up) (dir way : List α) :
    walk up dir (c :: way) = walk up (dir ++ [c]) way := by
  simp [walk, h]

theorem length_walk (dir way : List α) : (walk up dir way).length = depth up dir.length way := by
  induction way generalizing dir with
  | nil => rfl
  | cons c way ih =>
    by_cases hc : c = up
    · subst hc
      rw [walk_cons_up, ih, List.length_dropLast]
      simp [depth]
    · rw [walk_cons_of_ne hc, ih, List.length_append, List.length_singleton]
      simp [depth, hc]

/-- A way that stays below its beginning leads there from every directory. -/
theorem walk_of_stays (h : stays up rest.length way) :
    walk up (base ++ rest) way = base ++ walk up rest way := by
  induction way generalizing rest with
  | nil => rfl
  | cons c way ih =>
    by_cases hc : c = up
    · subst hc
      simp only [stays, if_true, Bool.and_eq_true, decide_eq_true_eq] at h
      have hrest : rest ≠ [] := List.ne_nil_of_length_pos (Nat.pos_of_ne_zero h.1)
      rw [walk_cons_up, walk_cons_up, List.dropLast_append_of_ne_nil hrest, ih]
      rw [List.length_dropLast]
      exact h.2
    · simp only [stays, if_neg hc] at h
      rw [walk_cons_of_ne hc, walk_cons_of_ne hc, List.append_assoc, ih]
      rwa [List.length_append, List.length_singleton]

theorem stays_of_inside (hb : base ≠ [])
    (h : ∀ w, w <+: way → base <+: walk up (base ++ rest) w) : stays up rest.length way := by
  induction way generalizing rest with
  | nil => rfl
  | cons c way ih =>
    by_cases hc : c = up
    · subst hc
      have hrest : rest ≠ [] := by
        rintro rfl
        have hup := h [c] ⟨way, rfl⟩
        rw [walk_cons_up, List.append_nil] at hup
        have hle := hup.length_le
        have hpos := List.length_pos_iff.mpr hb
        rw [walk, List.foldl_nil, List.length_dropLast] at hle
        omega
      have hlen := List.length_pos_iff.mpr hrest
      have htail : stays c rest.dropLast.length way := by
        apply ih
        intro w hw
        have hcons := h (c :: w) (List.cons_prefix_cons.mpr ⟨rfl, hw⟩)
        rwa [walk_cons_up, List.dropLast_append_of_ne_nil hrest] at hcons
      rw [List.length_dropLast] at htail
      simp only [stays, if_true, htail, Bool.and_true, decide_eq_true_eq]
      omega
    · have htail : stays up (rest ++ [c]).length way := by
        apply ih
        intro w hw
        have hcons := h (c :: w) (List.cons_prefix_cons.mpr ⟨rfl, hw⟩)
        rwa [walk_cons_of_ne hc, List.append_assoc] at hcons
      rw [List.length_append, List.length_singleton] at htail
      simpa only [stays, if_neg hc] using htail

theorem stays_of_begins {w : List α} {n : Nat} (h : stays up n way) (hw : w <+: way) :
    stays up n w := by
  induction way generalizing w n with
  | nil =>
    obtain rfl := List.prefix_nil.mp hw
    rfl
  | cons c way ih =>
    cases w with
    | nil => rfl
    | cons c' w =>
      obtain ⟨rfl, hbegins⟩ := List.cons_prefix_cons.mp hw
      by_cases hc : c' = up
      · simp only [stays, if_pos hc, Bool.and_eq_true] at h ⊢
        exact ⟨h.1, ih h.2 hbegins⟩
      · simp only [stays, if_neg hc] at h ⊢
        exact ih h hbegins

/-- A way leads below a directory without leaving it exactly if no beginning of it leads above the
directory (the root cannot be left) and it does not end where it has begun. -/
theorem inside_and_below_iff :
    ((∀ w, w <+: way → base <+: walk up base w) ∧ walk up base way ≠ base) ↔
      (base = [] ∨ stays up 0 way) ∧ 0 < depth up 0 way := by
  have hlen : (walk up [] way).length = depth up 0 way := length_walk [] way
  rw [← hlen, List.length_pos_iff]
  by_cases hb : base = []
  · subst hb
    simp
  · have hwalk {w : List α} (h : stays up 0 w) : walk up base w = base ++ walk up [] w := by
      have hfrom : walk up (base ++ []) w = base ++ walk up [] w := walk_of_stays h
      rwa [List.append_nil] at hfrom
    constructor
    · rintro ⟨hinside, hbelow⟩
      have hstays : stays up ([] : List α).length way := by
        apply stays_of_inside hb
        intro w hw
        rw [List.append_nil]
        exact hinside w hw
      refine ⟨.inr hstays, ?_⟩
      rw [hwalk hstays] at hbelow
      intro hnil
      exact hbelow (by rw [hnil, List.append_nil])
    · rintro ⟨hstays | hstays, hdepth⟩
      · exact absurd hstays hb
      · refine ⟨fun w hw ↦ ?_, ?_⟩
        · rw [hwalk (stays_of_begins hstays hw)]
          exact List.prefix_append _ _
        · rw [hwalk hstays]
          intro he
          exact hdepth (List.append_right_eq_self.mp he)

end Descent
