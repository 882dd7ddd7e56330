import Rystemd.Elapse

namespace Rystemd.Calendar.Spec

open LeastSearch NaiveDateTime

variable {spec : Spec} {a b c from_ nt : NaiveDateTime}

/-- The elapse after `a` is `b`. -/
def Elapses (spec : Spec) (a b : NaiveDateTime) : Prop := spec.nextElapse a = some b

theorem Wanted.timestamp_lt (h : spec.Wanted a b) : a.timestamp < b.timestamp :=
  (later_iff h.whole).mp h.later

theorem year_le_of_timestamp (h : a.timestamp ≤ b.timestamp) : a.date.year ≤ b.date.year :=
  (NaiveDate.dayNumber_le (NaiveDateTime.dayNumber_le h)).1

/-- What is wanted from `a` behind `b` is wanted from `b` too: the years that are searched from
there reach at least as far. -/
theorem Wanted.rest (hb : spec.Wanted a b) (hc : spec.Wanted a c)
    (h : b.timestamp < c.timestamp) : spec.Wanted b c where
  fits := hc.fits
  whole := hc.whole
  later := (later_iff hc.whole).mpr h
  year_ge := year_le_of_timestamp h.le
  year_le := hc.year_le.trans (Int.add_le_add_right hb.year_ge _)

theorem Elapses.wanted (h : spec.Elapses a b) : spec.Wanted a b := by
  have hfind := nextElapse_find spec a
  rw [show spec.nextElapse a = some b from h] at hfind
  exact hfind.1

/-- No second that fits lies between an instant and the elapse after it, however far away. -/
theorem Elapses.next (h : spec.Elapses a b) (hc : spec.Fits c) (hw : c.nanosecond = 0)
    (hlater : c.Later a) : b.timestamp ≤ c.timestamp := by
  have hb := h.wanted
  have hfind := nextElapse_find spec a
  rw [show spec.nextElapse a = some b from h] at hfind
  by_contra hcb
  have hcb : c.timestamp < b.timestamp := not_le.mp hcb
  have hac := (later_iff hw).mp hlater
  refine hcb.not_ge (hfind.2 c ⟨hc, hw, hlater, year_le_of_timestamp hac.le, ?_⟩)
  exact (year_le_of_timestamp hcb.le).trans hb.year_le

theorem wanted_of_elapses (h : Relation.TransGen spec.Elapses from_ nt) :
    spec.Fits nt ∧ nt.nanosecond = 0 ∧ from_.timestamp < nt.timestamp := by
  induction h with
  | single h => exact ⟨h.wanted.fits, h.wanted.whole, h.wanted.timestamp_lt⟩
  | tail _ h ih => exact ⟨h.wanted.fits, h.wanted.whole, ih.2.2.trans h.wanted.timestamp_lt⟩

/-- In the years that are searched, the elapses that follow each other are the seconds that fit. -/
theorem transGen_elapses_iff (hy : nt.date.year ≤ from_.date.year + maxSearchYears) :
    Relation.TransGen spec.Elapses from_ nt ↔ spec.Wanted from_ nt := by
  constructor
  · intro h
    obtain ⟨hfits, hwhole, hlt⟩ := wanted_of_elapses h
    exact ⟨hfits, hwhole, (later_iff hwhole).mpr hlt, year_le_of_timestamp hlt.le, hy⟩
  · refine Finds.transGen (nextElapse_find spec) (fun _ _ h ↦ h.timestamp_lt) ?_ ?_
    · exact fun a b c hb hc h ↦ eq_of_timestamp hb.whole hc.whole h
    · exact fun a b c hb hc h ↦ hb.rest hc h

/-- A timer that takes its next elapse again and again comes in order to all seconds that fit:
each elapse is the first one of them after the last, and in the years that are searched it comes to
every one. -/
theorem elapses_enumerate (spec : Spec) (from_ : NaiveDateTime) :
    (∀ a b, spec.Elapses a b → spec.Fits b ∧ b.Later a ∧
      ∀ c, spec.Fits c → c.nanosecond = 0 → c.Later a → b.timestamp ≤ c.timestamp) ∧
    ∀ nt, nt.date.year ≤ from_.date.year + maxSearchYears →
      (Relation.TransGen spec.Elapses from_ nt ↔ spec.Wanted from_ nt) :=
  ⟨fun _ _ h ↦ ⟨h.wanted.fits, h.wanted.later, fun _ hc hw hlater ↦ h.next hc hw hlater⟩,
    fun _ hy ↦ transGen_elapses_iff hy⟩

end Rystemd.Calendar.Spec
