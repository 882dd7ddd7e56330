import Rystemd.Calendar
import Rystemd.Rearming

namespace Rystemd

open Calendar

/-- The local wall clock. -/
structure LocalClock where
  civil : NaiveDateTime
  offset : Int

namespace LocalClock

/-- Seconds since 1970. -/
def utc (clock : LocalClock) : Int := clock.civil.timestamp - clock.offset

/-- The next elapse of an expression in civil seconds. -/
def elapse (clock : LocalClock) (spec : Spec) : Option Int :=
  (spec.nextElapse clock.civil).map NaiveDateTime.timestamp

/-- What `rearm_timer` reads of the clock. Both numbers are cut off at 0. -/
def Shows (clock : LocalClock) (parse : CalendarSpec → Spec) (w : World) : Prop :=
  w.epoch = clock.utc.toNat ∧
    ∀ s, w.nextElapse s = (clock.elapse (parse s)).map Int.toNat

/-- The earliest next elapse of some expressions. -/
def Earliest (clock : LocalClock) (parse : CalendarSpec → Spec) (specs : List CalendarSpec)
    (n : Int) : Prop :=
  (∃ s ∈ specs, clock.elapse (parse s) = some n) ∧
    ∀ s ∈ specs, ∀ t, clock.elapse (parse s) = some t → n ≤ t

/-- The clock is that of UTC, and not before 1970. (In the second before 1970 it happens to be right
for an elapse at 1970, and for an earlier one if that is the offset.) -/
def Universal (clock : LocalClock) (n : Int) : Prop :=
  clock.offset = 0 ∧ 0 ≤ clock.utc ∨
    clock.utc = -1 ∧ (clock.offset = 0 ∧ n = 0 ∨ n < 0 ∧ clock.offset = n)

end LocalClock

namespace Manager

/-- The timer is armed for the civil time `n`, and shows it or an earlier monotonic elapse. -/
structure ArmedAt (clock : LocalClock) (n : Int) (w : World) (m : Manager) (name : Name)
    (tc : TimerConfig) (target : Name) (m' : Manager) : Prop where
  armed : ∃ id e i, m'.wheel.entries.get id = some e ∧ e.unit = name ∧ e.kind = .calendarElapse i
  deadline : ∀ id e i, m'.wheel.entries.get id = some e → e.unit = name →
    e.kind = .calendarElapse i →
      (e.deadline : Int) = w.now + max (n - clock.civil.timestamp) 1 * second
  display : ∃ u st d, m'.units.get name = some u ∧ u.timer = some st ∧ st.nextDisplay = some d ∧
    (d : Int) = (m.armedMonotonic w tc target).elim ((n - clock.offset) * second)
      fun due ↦ min ((n - clock.offset) * second) (w.epoch * second + (due - w.now) : Nat)

/-- Every timer with these expressions is armed for the civil time `n` when it is re-armed. -/
def FiresAtCivilTime (parse : CalendarSpec → Spec) (clock : LocalClock)
    (specs : List CalendarSpec) (n : Int) : Prop :=
  ∀ w m name u tc m', clock.Shows parse w → m.shuttingDown = false →
    m.units.get name = some u → u.timerCfg = some tc → tc.onCalendar = specs →
      m.rearmTimer w name = some m' → ArmedAt clock n w m name tc u.activatedUnit m'

variable {w : World} {m m' : Manager} {name target : Name} {tc : TimerConfig} {u : Unit}

/-- One round of the search for the earliest elapse. -/
def earlier (w : World) (best : Option (Nat × Nat)) (p : CalendarSpec × Nat) : Option (Nat × Nat) :=
  match w.nextElapse p.1 with
  | none => best
  | some epoch => if best.all (fun b ↦ epoch < b.1) then some (epoch, p.2) else best

theorem nextCalendar_eq_foldl (w : World) (specs : List CalendarSpec) :
    nextCalendar w specs = specs.zipIdx.foldl (earlier w) none := rfl

theorem foldl_earlier_le {l : List (CalendarSpec × Nat)} {best : Option (Nat × Nat)} {e : Nat}
    (h : (∃ i, best = some (e, i)) ∨ ∃ p ∈ l, w.nextElapse p.1 = some e) :
    ∃ r, l.foldl (earlier w) best = some r ∧ r.1 ≤ e := by
  induction l generalizing best e with
  | nil =>
    obtain ⟨i, rfl⟩ | ⟨p, hp, -⟩ := h
    · exact ⟨(e, i), rfl, le_rfl⟩
    · cases hp
  | cons p l ih =>
    have hround : ∀ b, best = some b → ∃ b', earlier w best p = some b' ∧ b'.1 ≤ b.1 := by
      rintro b rfl
      unfold earlier
      cases hn : w.nextElapse p.1 with
      | none => exact ⟨b, rfl, le_rfl⟩
      | some epoch =>
        by_cases hlt : epoch < b.1
        · exact ⟨(epoch, p.2), by simp [hlt], hlt.le⟩
        · exact ⟨b, by simp [hlt], le_rfl⟩
    obtain ⟨i, hb⟩ | ⟨q, hq, hn⟩ := h
    · obtain ⟨b', hb', hle⟩ := hround _ hb
      obtain ⟨r, hr, hr'⟩ := ih (.inl ⟨b'.2, hb'⟩)
      exact ⟨r, hr, hr'.trans hle⟩
    · obtain rfl | hq := List.mem_cons.mp hq
      · have hfirst : ∃ b', earlier w best q = some b' ∧ b'.1 ≤ e := by
          unfold earlier
          rw [hn]
          cases best with
          | none => exact ⟨(e, q.2), rfl, le_rfl⟩
          | some b =>
            by_cases hlt : e < b.1
            · exact ⟨(e, q.2), by simp [hlt], le_rfl⟩
            · exact ⟨b, by simp [hlt], not_lt.mp hlt⟩
        obtain ⟨b', hb', hle⟩ := hfirst
        obtain ⟨r, hr, hr'⟩ := ih (.inl ⟨b'.2, hb'⟩)
        exact ⟨r, hr, hr'.trans hle⟩
      · exact ih (.inr ⟨q, hq, hn⟩)

theorem foldl_earlier_from {l : List (CalendarSpec × Nat)} {best : Option (Nat × Nat)}
    {r : Nat × Nat} (h : l.foldl (earlier w) best = some r) :
    best = some r ∨ ∃ p ∈ l, w.nextElapse p.1 = some r.1 := by
  induction l generalizing best with
  | nil => exact .inl h
  | cons p l ih =>
    obtain hb | ⟨q, hq, hn⟩ := ih h
    · unfold earlier at hb
      cases hn : w.nextElapse p.1 with
      | none =>
        rw [hn] at hb
        exact .inl hb
      | some epoch =>
        rw [hn] at hb
        dsimp only at hb
        split at hb
        · cases hb
          exact .inr ⟨p, List.mem_cons_self, hn⟩
        · exact .inl hb
    · exact .inr ⟨q, List.mem_cons_of_mem _ hq, hn⟩

theorem nextCalendar_eq {specs : List CalendarSpec} {e : Nat}
    (he : ∃ s ∈ specs, w.nextElapse s = some e)
    (hmin : ∀ s ∈ specs, ∀ t, w.nextElapse s = some t → e ≤ t) :
    ∃ i, nextCalendar w specs = some (e, i) := by
  rw [nextCalendar_eq_foldl]
  obtain ⟨s, hs, hn⟩ := he
  obtain ⟨i, hi, his⟩ := List.mem_iff_getElem.mp hs
  have hmem : (s, i) ∈ specs.zipIdx := by
    rw [List.mk_mem_zipIdx_iff_getElem?, List.getElem?_eq_getElem hi, his]
  have hstart : (∃ i, (none : Option (Nat × Nat)) = some (e, i)) ∨
      ∃ p ∈ specs.zipIdx, w.nextElapse p.1 = some e := .inr ⟨(s, i), hmem, hn⟩
  obtain ⟨r, hr, hle⟩ := foldl_earlier_le hstart
  obtain hb | ⟨p, hp, hpn⟩ := foldl_earlier_from hr
  · cases hb
  · have hge : e ≤ r.1 := by
      refine hmin p.1 ?_ r.1 hpn
      exact (List.mem_zipIdx' hp).2 ▸ List.getElem_mem _
    refine ⟨r.2, ?_⟩
    rw [hr]
    have heq : r.1 = e := le_antisymm hle hge
    rw [← heq]

theorem minOf_some (a b : Nat) : minOf (some a) b = some (min a b) := rfl

theorem nextDisplay_calendar (w : World) (e i : Nat) (mono : Option Nat) :
    nextDisplay w (some (e, i)) mono = some (mono.elim (e * second)
      fun due ↦ min (e * second) (w.epoch * second + (due - w.now))) := by
  cases mono with
  | none => rw [nextDisplay, Option.map_some, Option.elim_none]
  | some due => rw [nextDisplay, Option.map_some, minOf_some, Option.elim_some]

/-- The wheel and the displayed time that `rearm_timer` leaves for an armed calendar timer. -/
theorem rearmTimer_calendar {e i : Nat} (hs : m.shuttingDown = false)
    (hu : m.units.get name = some u) (htc : u.timerCfg = some tc)
    (hc : nextCalendar w tc.onCalendar = some (e, i)) (h : m.rearmTimer w name = some m') :
    let wheel := armCalendar w name (m.wheel.cancelByUnit name) (some (e, i))
    let mono := m.armedMonotonic w tc u.activatedUnit
    m'.wheel = mono.elim wheel (fun due ↦ wheel.schedule due .monotonicElapse name) ∧
      ∃ u' st, m'.units.get name = some u' ∧ u'.timer = some st ∧
        st.nextDisplay = some (mono.elim (e * second)
          fun due ↦ min (e * second) (w.epoch * second + (due - w.now))) := by
  cases rearmTimer_cases h with
  | disarmed hoff =>
    obtain ⟨v, hv, hnone⟩ := hoff hs
    rw [hu] at hv
    cases hv
    rw [htc] at hnone
    cases hnone
  | @armed v tc' st _ hv htc' hd =>
    obtain rfl : u = v := Option.some.inj (hu.symm.trans hv)
    obtain rfl : tc = tc' := Option.some.inj (htc.symm.trans htc')
    rw [hc] at hd ⊢
    generalize m.armedMonotonic w tc u.activatedUnit = mono at hd ⊢
    generalize armCalendar w name (m.wheel.cancelByUnit name) (some (e, i)) = wheel
    refine ⟨by cases mono <;> rfl, { u with timer := some st }, st, ?_, rfl, ?_⟩
    · rw [Table.get_modify, if_pos rfl, hu]
      rfl
    · rw [hd]
      exact nextDisplay_calendar w e i mono

variable (w) (name) in
/-- The calendar entries of a timer that has just been armed. -/
theorem armCalendar_entries (wheel : TimerWheel) (e i : Nat) (due : Option Nat) :
    let armed := armCalendar w name (wheel.cancelByUnit name) (some (e, i))
    let wheel' := due.elim armed fun due ↦ armed.schedule due .monotonicElapse name
    (∃ id en, wheel'.entries.get id = some en ∧ en.unit = name ∧ en.kind = .calendarElapse i) ∧
      ∀ id en j, wheel'.entries.get id = some en → en.unit = name → en.kind = .calendarElapse j →
        en.deadline = w.now + max (e - w.epoch) 1 * second := by
  have hfirst : ∀ id en j, (armCalendar w name (wheel.cancelByUnit name) (some (e, i))).entries.get
      id = some en → en.unit = name → en.kind = .calendarElapse j →
        en.deadline = w.now + max (e - w.epoch) 1 * second := by
    intro id en j hget hunit _
    simp only [armCalendar, TimerWheel.schedule, Table.get_insert] at hget
    split at hget
    · injection hget with hget
      rw [← hget]
    · rw [TimerWheel.cancelByUnit, Table.get_retain, Option.filter_eq_some_iff] at hget
      simp [hunit] at hget
  have hnew : (armCalendar w name (wheel.cancelByUnit name) (some (e, i))).entries.get
      (wheel.nextId + 1) = some ⟨w.now + max (e - w.epoch) 1 * second, wheel.nextId + 1,
        .calendarElapse i, name⟩ := Table.get_insert_self
  cases due with
  | none => exact ⟨⟨_, _, hnew, rfl, rfl⟩, hfirst⟩
  | some due =>
    constructor
    · have hkept : ((armCalendar w name (wheel.cancelByUnit name) (some (e, i))).schedule due
          .monotonicElapse name).entries.get (wheel.nextId + 1) = some ⟨w.now +
            max (e - w.epoch) 1 * second, wheel.nextId + 1, .calendarElapse i, name⟩ := by
        rw [← hnew]
        simp [armCalendar, TimerWheel.schedule, TimerWheel.cancelByUnit, Table.get_insert]
      exact ⟨_, _, hkept, rfl, rfl⟩
    · intro id en j hget hunit hkind
      simp only [Option.elim_some, TimerWheel.schedule, Table.get_insert] at hget
      split at hget
      · injection hget with hget
        rw [← hget] at hkind
        cases hkind
      · exact hfirst id en j hget hunit hkind

theorem LocalClock.Shows.nextCalendar {clock : LocalClock} {parse : CalendarSpec → Spec}
    {specs : List CalendarSpec} {n : Int} (hw : clock.Shows parse w)
    (hn : clock.Earliest parse specs n) : ∃ i, nextCalendar w specs = some (n.toNat, i) := by
  obtain ⟨⟨s, hs, he⟩, hmin⟩ := hn
  apply nextCalendar_eq
  · exact ⟨s, hs, by rw [hw.2, he]; rfl⟩
  · intro t ht e he
    rw [hw.2] at he
    obtain ⟨x, hx, rfl⟩ := Option.map_eq_some_iff.mp he
    exact Int.toNat_le_toNat (hmin t ht x hx)

theorem LocalClock.Earliest.after {clock : LocalClock} {parse : CalendarSpec → Spec}
    {specs : List CalendarSpec} {n : Int} (hn : clock.Earliest parse specs n) :
    clock.civil.timestamp < n := by
  obtain ⟨s, -, he⟩ := hn.1
  obtain ⟨t, ht, rfl⟩ := Option.map_eq_some_iff.mp he
  exact Spec.nextElapse_after ht

/-- A unit with these calendar expressions and no other ones. -/
def calendarTimer (specs : List CalendarSpec) : Unit :=
  { Unit.new 0 "a.timer" .timer with file := some { timer := some { onCalendar := specs } } }

/-- A machine with one calendar timer. -/
def oneTimer (specs : List CalendarSpec) : Manager where
  units := Table.empty.insert "a.timer" (calendarTimer specs)

/-- What a machine sees that has this clock. -/
def clockWorld (parse : CalendarSpec → Spec) (clock : LocalClock) : World where
  epoch := clock.utc.toNat
  nextElapse s := (clock.elapse (parse s)).map Int.toNat

/-- What one machine shows that keeps the claim: the displayed instant says what the offset is, and
the deadline what the clock reads. -/
theorem FiresAtCivilTime.shown {parse : CalendarSpec → Spec} {clock : LocalClock}
    {specs : List CalendarSpec} {n : Int} (h : FiresAtCivilTime parse clock specs n)
    (hn : clock.Earliest parse specs n) :
    (n.toNat : Int) = n - clock.offset ∧
      ((max (n.toNat - clock.utc.toNat) 1 : Nat) : Int) = max (n - clock.civil.timestamp) 1 := by
  have hw : clock.Shows parse (clockWorld parse clock) := ⟨rfl, fun _ ↦ rfl⟩
  obtain ⟨i, hi⟩ := LocalClock.Shows.nextCalendar hw hn
  have hu : (oneTimer specs).units.get "a.timer" = some (calendarTimer specs) :=
    Table.get_insert_self
  have hsome : ((oneTimer specs).rearmTimer (clockWorld parse clock) "a.timer").isSome :=
    rearmTimer_isSome (by rw [hu]; rfl)
  obtain ⟨m', hm'⟩ := Option.isSome_iff_exists.mp hsome
  have hmono : (oneTimer specs).armedMonotonic (clockWorld parse clock)
      { onCalendar := specs } "a.service" = none := by
    simp [armedMonotonic, nextMonotonic, oneTimer, Table.get_insert]
  have htarget : (calendarTimer specs).activatedUnit = "a.service" := by
    change Unit.sameStemService "a.timer" = "a.service"
    decide +kernel
  have hsecond : (second : Int) = 1000000 := rfl
  obtain ⟨-, hdeadline, u₁, st₁, d, hu₁, hst₁, hd, hd₁⟩ := h _ _ _ _ _ m' hw rfl hu rfl rfl hm'
  obtain ⟨hwheel, u₂, st₂, hu₂, hst₂, hd₂⟩ := rearmTimer_calendar rfl hu rfl hi hm'
  rw [htarget, hmono] at hwheel hd₂ hd₁
  obtain rfl : u₁ = u₂ := Option.some.inj (hu₁.symm.trans hu₂)
  obtain rfl : st₁ = st₂ := Option.some.inj (hst₁.symm.trans hst₂)
  obtain rfl : d = n.toNat * second := Option.some.inj (hd.symm.trans hd₂)
  constructor
  · simp only [Option.elim_none, Int.natCast_mul, hsecond] at hd₁
    omega
  · obtain ⟨⟨id, en, hget, hunit, hkind⟩, hall⟩ := armCalendar_entries
      (clockWorld parse clock) "a.timer" (oneTimer specs).wheel n.toNat i none
    have hclaim := hdeadline id en i (hwheel ▸ hget) hunit hkind
    rw [hall id en i hget hunit hkind] at hclaim
    simp only [clockWorld, Int.natCast_add, Int.natCast_mul, hsecond] at hclaim
    omega

/-- For every clock and every expressions that have a next elapse. -/
theorem fires_at_civil_time_iff (parse : CalendarSpec → Spec) (clock : LocalClock)
    (specs : List CalendarSpec) (n : Int) (hn : clock.Earliest parse specs n) :
    FiresAtCivilTime parse clock specs n ↔ clock.Universal n := by
  have hafter := LocalClock.Earliest.after hn
  unfold LocalClock.Universal LocalClock.utc
  constructor
  · intro h
    obtain ⟨hshown, hdelta⟩ := FiresAtCivilTime.shown h hn
    unfold LocalClock.utc at hdelta
    omega
  · intro hc w m name u tc m' hw hs hu htc hspecs hm'
    subst hspecs
    obtain ⟨i, hi⟩ := LocalClock.Shows.nextCalendar hw hn
    obtain ⟨hwheel, u', st, hu', hst, hdisplay⟩ := rearmTimer_calendar hs hu htc hi hm'
    obtain ⟨⟨id, en, hget, hunit, hkind⟩, hall⟩ := armCalendar_entries w name
      m.wheel n.toNat i (m.armedMonotonic w tc u.activatedUnit)
    rw [← hwheel] at hget hall
    have hepoch : w.epoch = (clock.civil.timestamp - clock.offset).toNat := hw.1
    have hshown : (n.toNat : Int) = n - clock.offset := by omega
    refine ⟨⟨id, en, i, hget, hunit, hkind⟩, ?_, u', st, _, hu', hst, hdisplay, ?_⟩
    · intro id en j hget hunit hkind
      have hdelta : ((max (n.toNat - w.epoch) 1 : Nat) : Int) =
          max (n - clock.civil.timestamp) 1 := by omega
      rw [hall id en j hget hunit hkind, Int.natCast_add, Int.natCast_mul, hdelta]
    · have hcast : ((n.toNat * second : Nat) : Int) = (n - clock.offset) * second := by
        rw [Int.natCast_mul, hshown]
      -- without the numbers no check counts up to a time in microseconds
      generalize n.toNat * second = calendar at hcast ⊢
      generalize (n - clock.offset) * second = shown at hcast ⊢
      generalize w.epoch * second = epoch
      generalize m.armedMonotonic w tc u.activatedUnit = mono
      cases mono with
      | none => exact hcast
      | some due =>
        rw [Option.elim_some, Option.elim_some]
        omega

/-- Every day at midnight. -/
def daily : Spec where
  hour := .set [0] (List.pairwise_singleton _ _)
  minute := .set [0] (List.pairwise_singleton _ _)
  second := .set [0] (List.pairwise_singleton _ _)

/-- Noon on 15 January 2026. -/
def noonTime : NaiveDateTime := ⟨⟨2026, 1, 15, by decide⟩, 12, 0, 0, 0, by decide⟩

/-- A clock that shows noon, so many seconds ahead of UTC. -/
def noon (offset : Int) : LocalClock := ⟨noonTime, offset⟩

/-- The next midnight, in civil seconds. -/
def midnight : Int := 1768521600

theorem noonTime_elapse :
    (daily.nextElapse noonTime).map NaiveDateTime.timestamp = some midnight := by
  decide +kernel

theorem noon_earliest (offset : Int) :
    (noon offset).Earliest (fun _ ↦ daily) ["daily"] midnight := by
  have helapse : (noon offset).elapse daily = some midnight := by
    unfold LocalClock.elapse noon
    exact noonTime_elapse
  refine ⟨⟨"daily", List.mem_singleton_self _, helapse⟩, fun s _ t ht ↦ ?_⟩
  rw [helapse] at ht
  exact (Option.some.inj ht).le

/-- At noon in Paris, a timer for midnight is armed for 13 hours later. -/
theorem paris_fires_late : (noon 3600).Earliest (fun _ ↦ daily) ["daily"] midnight ∧
    ¬ FiresAtCivilTime (fun _ ↦ daily) (noon 3600) ["daily"] midnight := by
  refine ⟨noon_earliest 3600, fun h ↦ ?_⟩
  have hshown := (FiresAtCivilTime.shown h (noon_earliest 3600)).1
  revert hshown
  decide +kernel

theorem greenwich_fires_at_midnight :
    FiresAtCivilTime (fun _ ↦ daily) (noon 0) ["daily"] midnight :=
  (fires_at_civil_time_iff _ _ _ _ (noon_earliest 0)).mpr (.inl ⟨rfl, by decide +kernel⟩)

end Manager

end Rystemd
