import Rystemd.CalendarOrder
import Rystemd.Library.LeastSearch

namespace Rystemd.Calendar

open LeastSearch

namespace Field

variable {f : Field} {v ge max : Nat}

theorem mem_valuesGe : v ∈ f.valuesGe ge max ↔ f.matches_ v ∧ ge ≤ v ∧ v ≤ max := by
  cases f with
  | any =>
    simp only [valuesGe, matches_, List.mem_range'_1, true_and]
    omega
  | set values sorted =>
    simp [valuesGe, matches_]

theorem valuesGe_sorted : (f.valuesGe ge max).Pairwise (· < ·) := by
  cases f with
  | any => exact List.pairwise_lt_range'
  | set values sorted => exact sorted.filter _

end Field

/-- A time of day: hours, minutes and seconds. -/
abbrev Time := Nat × Nat × Nat

def Time.seconds (t : Time) : Nat := t.1 * 3600 + t.2.1 * 60 + t.2.2

namespace Spec

variable {spec : Spec} {h0 mi0 s0 h mi s : Nat} {forceGt : Bool} {time : Time}

/-- The time fits the expression, and comes after the given one if `forceGt`. -/
def TimeFits (spec : Spec) (t0 : Time) (forceGt : Bool) (t : Time) : Prop :=
  (spec.hour.matches_ t.1 ∧ t.1 ≤ 23) ∧ (spec.minute.matches_ t.2.1 ∧ t.2.1 ≤ 59) ∧
    (spec.second.matches_ t.2.2 ∧ t.2.2 ≤ 59) ∧ (forceGt → Time.seconds t0 < Time.seconds t)

def Earliest (t t' : Time) : Prop := Time.seconds t ≤ Time.seconds t'

theorem earliest_refl (t : Time) : Earliest t t := le_refl (Time.seconds t)

/-- The search for the second of a minute that is not before the given one. -/
theorem seconds_find (hs : s0 ≤ 59) (hh : spec.hour.matches_ h ∧ h ≤ 23)
    (hm : spec.minute.matches_ mi ∧ mi ≤ 59)
    (hge : forceGt → h0 < h ∨ h0 = h ∧ mi0 ≤ mi) (hmi : mi0 ≤ 59) :
    Finds Earliest (fun t ↦ spec.TimeFits (h0, mi0, s0) forceGt t ∧ t.1 = h ∧ t.2.1 = mi)
      ((spec.second.valuesGe (if forceGt && h == h0 && mi == mi0 then s0 else 0) 59).findSome?
        fun s ↦ if !forceGt || (h, mi, s) != (h0, mi0, s0) then some (h, mi, s) else none) := by
  have hfind := Finds.findSome
    (P := fun s t ↦ t = (h, mi, s) ∧ (!forceGt || (h, mi, s) != (h0, mi0, s0)) = true)
    (fun s (_ : s ∈ spec.second.valuesGe (if forceGt && h == h0 && mi == mi0 then s0 else 0) 59) ↦
      finds_ite earliest_refl (h, mi, s))
    (Field.valuesGe_sorted.imp fun hlt t t' ht ht' ↦ by
      rw [ht.1, ht'.1]
      simp only [Earliest, Time.seconds]
      omega)
  apply hfind.congr
  rintro ⟨h', mi', s'⟩
  simp only [Field.mem_valuesGe, Prod.mk.injEq]
  constructor
  · rintro ⟨s, ⟨hms, hle, hs59⟩, ⟨rfl, rfl, rfl⟩, hc⟩
    refine ⟨⟨hh, hm, ⟨hms, hs59⟩, fun hf ↦ ?_⟩, rfl, rfl⟩
    have hge := hge hf
    simp only [hf, Bool.true_and, Bool.and_eq_true, beq_iff_eq, Bool.not_true, Bool.false_or,
      bne_iff_ne, ne_eq, Prod.mk.injEq] at hle hc
    simp only [Time.seconds]
    split at hle <;> omega
  · rintro ⟨⟨-, -, ⟨hms, hs59⟩, hlt⟩, rfl, rfl⟩
    refine ⟨s', ⟨hms, ?_, hs59⟩, ⟨rfl, rfl, rfl⟩, ?_⟩
    · split
      · next hf =>
        simp only [Bool.and_eq_true, beq_iff_eq] at hf
        have hlt := hlt hf.1.1
        simp only [Time.seconds] at hlt
        omega
      · exact Nat.zero_le _
    · cases forceGt with
      | false => rfl
      | true =>
        simp only [Bool.not_true, Bool.false_or, bne_iff_ne, ne_eq, Prod.mk.injEq]
        have hlt := hlt rfl
        simp only [Time.seconds] at hlt
        omega

/-- The search for the minute of an hour that is not before the given one. -/
theorem minutes_find (hs : s0 ≤ 59) (hmi : mi0 ≤ 59) (hh : spec.hour.matches_ h ∧ h ≤ 23)
    (hge : forceGt → h0 ≤ h) :
    Finds Earliest (fun t ↦ spec.TimeFits (h0, mi0, s0) forceGt t ∧ t.1 = h)
      ((spec.minute.valuesGe (if forceGt && h == h0 then mi0 else 0) 59).findSome? fun mi ↦
        (spec.second.valuesGe (if forceGt && h == h0 && mi == mi0 then s0 else 0) 59).findSome?
          fun s ↦ if !forceGt || (h, mi, s) != (h0, mi0, s0) then some (h, mi, s) else none) := by
  have hfind := Finds.findSome
    (P := fun mi t ↦ spec.TimeFits (h0, mi0, s0) forceGt t ∧ t.1 = h ∧ t.2.1 = mi)
    (fun mi (hmem : mi ∈ spec.minute.valuesGe (if forceGt && h == h0 then mi0 else 0) 59) ↦ by
      obtain ⟨hm, hle, hm59⟩ := Field.mem_valuesGe.mp hmem
      refine seconds_find hs hh ⟨hm, hm59⟩ (fun hf ↦ ?_) hmi
      rcases Nat.lt_or_eq_of_le (hge hf) with hlt | rfl
      · exact Or.inl hlt
      · rw [hf, Bool.true_and, beq_self_eq_true, if_pos rfl] at hle
        exact Or.inr ⟨rfl, hle⟩)
    (Field.valuesGe_sorted.imp fun hlt t t' ht ht' ↦ by
      obtain ⟨⟨-, -, hs', -⟩, ht, hm⟩ := ht
      obtain ⟨-, ht', hm'⟩ := ht'
      simp only [Earliest, Time.seconds]
      omega)
  apply hfind.congr
  intro t
  constructor
  · rintro ⟨mi, -, hfits, ht, -⟩
    exact ⟨hfits, ht⟩
  · rintro ⟨hfits, ht⟩
    refine ⟨t.2.1, Field.mem_valuesGe.mpr ⟨hfits.2.1.1, ?_, hfits.2.1.2⟩, hfits, ht, rfl⟩
    split
    · next hf =>
      simp only [Bool.and_eq_true, beq_iff_eq] at hf
      obtain ⟨-, -, hs', hlt⟩ := hfits
      have hlt := hlt hf.1
      simp only [Time.seconds] at hlt
      omega
    · exact Nat.zero_le _

theorem nextTime_find (hs : s0 ≤ 59) (hmi : mi0 ≤ 59) :
    Finds Earliest (spec.TimeFits (h0, mi0, s0) forceGt) (spec.nextTime h0 mi0 s0 forceGt) := by
  have hfind := Finds.findSome
    (P := fun h t ↦ spec.TimeFits (h0, mi0, s0) forceGt t ∧ t.1 = h)
    (fun h (hmem : h ∈ spec.hour.valuesGe (if forceGt then h0 else 0) 23) ↦ by
      obtain ⟨hh, hle, hh23⟩ := Field.mem_valuesGe.mp hmem
      refine minutes_find hs hmi ⟨hh, hh23⟩ fun hf ↦ ?_
      rwa [if_pos hf] at hle)
    (Field.valuesGe_sorted.imp fun hlt t t' ht ht' ↦ by
      obtain ⟨⟨-, hm, hs', -⟩, ht⟩ := ht
      obtain ⟨-, ht'⟩ := ht'
      simp only [Earliest, Time.seconds]
      omega)
  apply hfind.congr
  intro t
  constructor
  · rintro ⟨h, -, hfits, -⟩
    exact hfits
  · intro hfits
    refine ⟨t.1, Field.mem_valuesGe.mpr ⟨hfits.1.1, ?_, hfits.1.2⟩, hfits, rfl⟩
    split
    · next hf =>
      obtain ⟨-, hm, hs', hlt⟩ := hfits
      have hlt := hlt hf
      simp only [Time.seconds] at hlt
      omega
    · exact Nat.zero_le _

end Spec

namespace NaiveDateTime

variable {t nt : NaiveDateTime} {date : NaiveDate} {h mi s : Nat}

def Soonest (a b : NaiveDateTime) : Prop := a.timestamp ≤ b.timestamp

/-- The time of day of a time. -/
def time (nt : NaiveDateTime) : Time := (nt.hour, nt.minute, nt.second)

theorem timeOfDay_eq (nt : NaiveDateTime) : nt.timeOfDay = nt.time.seconds := rfl

theorem later_iff (h : nt.nanosecond = 0) : nt.Later t ↔ t.timestamp < nt.timestamp := by
  unfold Later
  omega

/-- What is built from a date and a time of day, if it is later. -/
theorem withHms_later_iff :
    ((withHms date h mi s).bind fun nt ↦ if nt.Later t then some nt else none) = some nt ↔
      nt.date = date ∧ nt.time = (h, mi, s) ∧ nt.nanosecond = 0 ∧ nt.Later t := by
  constructor
  · intro heq
    obtain ⟨nt', hnt', hlater⟩ := Option.bind_eq_some_iff.mp heq
    unfold withHms at hnt'
    split at hnt'
    · cases hnt'
      split at hlater
      · next hl =>
        cases hlater
        exact ⟨rfl, rfl, rfl, hl⟩
      · cases hlater
    · cases hnt'
  · rintro ⟨rfl, htime, hnano, hl⟩
    obtain ⟨date, hour, minute, second, nano, hv⟩ := nt
    cases htime
    cases hnano
    rw [withHms, dif_pos hv, Option.bind_some, if_pos hl]

end NaiveDateTime

namespace Spec

open NaiveDateTime

variable {spec : Spec} {t nt : NaiveDateTime} {y : Int} {m d : Nat}

theorem isDate_of_dayOk (h : spec.dayOk y m d) : IsDate y m d := by
  unfold dayOk weekdayNumber NaiveDate.fromYmd at h
  by_contra hd
  rw [dif_neg hd] at h
  cases h

/-- A whole second of a date after `t` whose time of day fits. -/
def FitsOn (spec : Spec) (t : NaiveDateTime) (y : Int) (m d : Nat) (nt : NaiveDateTime) : Prop :=
  (nt.date.year = y ∧ nt.date.month = m ∧ nt.date.day = d) ∧ nt.nanosecond = 0 ∧
    (spec.hour.matches_ nt.hour ∧ spec.minute.matches_ nt.minute ∧
      spec.second.matches_ nt.second) ∧ nt.Later t

theorem fromYmd_self (date : NaiveDate) :
    NaiveDate.fromYmd date.year date.month date.day = some date := dif_pos date.valid

theorem sameDay_iff {a b : NaiveDate} : (decide (a.year = b.year) && decide (a.month = b.month) &&
    decide (a.day = b.day)) = true ↔ b = a := by
  simp only [Bool.and_eq_true, decide_eq_true_eq]
  constructor
  · rintro ⟨⟨hy, hm⟩, hd⟩
    exact (NaiveDate.eq_of_fields hy hm hd).symm
  · rintro rfl
    exact ⟨⟨rfl, rfl⟩, rfl⟩

/-- The search of a day that is not before that of `t`. -/
theorem elapseOn_find (hle : ∀ date : NaiveDate, date.year = y → date.month = m → date.day = d →
    t.date.dayNumber ≤ date.dayNumber) :
    Finds Soonest (fun nt ↦ spec.dayOk y m d ∧ spec.FitsOn t y m d nt) (spec.elapseOn t y m d) := by
  unfold elapseOn
  apply Finds.guard
  intro hok
  obtain ⟨date, rfl, rfl, rfl⟩ : ∃ date : NaiveDate, date.year = y ∧ date.month = m ∧ date.day = d :=
    ⟨⟨y, m, d, isDate_of_dayOk hok⟩, rfl, rfl, rfl⟩
  have hle := hle date rfl rfl rfl
  have hvalid := t.valid
  have hkey : ∀ time c, ((NaiveDate.fromYmd date.year date.month date.day).bind fun date ↦
      (withHms date time.1 time.2.1 time.2.2).bind fun nt ↦
        if nt.Later t then some nt else none) = some c ↔
      c.date = date ∧ c.time = time ∧ c.nanosecond = 0 ∧ c.Later t := by
    intro time c
    rw [fromYmd_self, Option.bind_some, withHms_later_iff]
  refine Finds.bind (nextTime_find (by omega) (by omega)) (fun time htime ↦ ?_) (fun c hc ↦ ?_)
    fun a b c c' hc hc' hab ↦ ?_
  · obtain ⟨⟨hh, hh23⟩, ⟨hm, hm59⟩, ⟨hs, hs59⟩, hlt⟩ := htime
    let c : NaiveDateTime :=
      ⟨date, time.1, time.2.1, time.2.2, 0, by omega, by omega, by omega⟩
    have hlater : c.Later t := by
      rw [later_iff rfl]
      rcases lt_or_eq_of_le hle with hday | hday
      · exact timestamp_lt_of_dayNumber hday
      · have hday : t.date = c.date := NaiveDate.eq_of_dayNumber hday
        have hlt : t.timeOfDay < c.timeOfDay := hlt (sameDay_iff.mpr hday)
        rw [timestamp_eq, timestamp_eq, hday]
        omega
    exact ⟨c, (hkey time c).mpr ⟨rfl, rfl, rfl, hlater⟩, ⟨rfl, rfl, rfl⟩, rfl, ⟨hh, hm, hs⟩, hlater⟩
  · obtain ⟨⟨hy, hm, hd⟩, hnano, ⟨hh, hmi, hs⟩, hlater⟩ := hc
    have hdate := NaiveDate.eq_of_fields hy hm hd
    have hvalid := c.valid
    refine ⟨c.time, ⟨⟨hh, ?_⟩, ⟨hmi, ?_⟩, ⟨hs, ?_⟩, fun hsame ↦ ?_⟩, (hkey c.time c).mpr ?_⟩
    · exact Nat.le_of_lt_succ hvalid.1
    · exact Nat.le_of_lt_succ hvalid.2.1
    · exact Nat.le_of_lt_succ hvalid.2.2
    · have hday := sameDay_iff.mp hsame
      rw [later_iff hnano, timestamp_eq, timestamp_eq, hdate, hday] at hlater
      have : t.timeOfDay < c.timeOfDay := by omega
      exact this
    · exact ⟨hdate, rfl, hnano, hlater⟩
  · obtain ⟨hdc, htc, -, -⟩ := (hkey a c).mp hc
    obtain ⟨hdc', htc', -, -⟩ := (hkey b c').mp hc'
    have hab : Time.seconds a ≤ Time.seconds b := hab
    rw [Soonest, timestamp_eq, timestamp_eq, timeOfDay_eq, timeOfDay_eq, hdc, hdc', htc, htc']
    omega

/-- The fields of a time match those of the expression. -/
structure Fits (spec : Spec) (nt : NaiveDateTime) : Prop where
  year : spec.year.matches_ (nt.date.year % 4294967296).toNat
  month : spec.month.matches_ nt.date.month
  day : spec.dayOk nt.date.year nt.date.month nt.date.day
  hour : spec.hour.matches_ nt.hour
  minute : spec.minute.matches_ nt.minute
  second : spec.second.matches_ nt.second

/-- A whole second that fits, strictly after `from_` and in the years that are searched. -/
structure Wanted (spec : Spec) (from_ nt : NaiveDateTime) : Prop where
  fits : spec.Fits nt
  whole : nt.nanosecond = 0
  later : nt.Later from_
  year_ge : from_.date.year ≤ nt.date.year
  year_le : nt.date.year ≤ from_.date.year + maxSearchYears

theorem lt_of_fitsOn {a b : NaiveDateTime} {y' : Int} {m' d' : Nat} (ha : spec.FitsOn t y m d a)
    (hb : spec.FitsOn t y' m' d' b)
    (h : y < y' ∨ y = y' ∧ (m < m' ∨ m = m' ∧ d < d')) : Soonest a b := by
  obtain ⟨⟨rfl, rfl, rfl⟩, -⟩ := ha
  obtain ⟨⟨rfl, rfl, rfl⟩, -⟩ := hb
  exact (timestamp_lt_of_dayNumber (NaiveDate.dayNumber_lt h)).le

variable {m0 d0 : Nat}

/-- The search of a month. -/
theorem days_find (hle : ∀ date : NaiveDate, date.year = y → date.month = m →
    d0 ≤ date.day → t.date.dayNumber ≤ date.dayNumber) :
    Finds Soonest (fun nt ↦ ∃ d ∈ List.range' d0 (daysInMonth y m + 1 - d0),
      spec.dayOk y m d ∧ spec.FitsOn t y m d nt)
      ((List.range' d0 (daysInMonth y m + 1 - d0)).findSome? (spec.elapseOn t y m)) := by
  have hsorted : (List.range' d0 (daysInMonth y m + 1 - d0)).Pairwise (· < ·) :=
    List.pairwise_lt_range'
  refine Finds.findSome (fun d hd ↦ elapseOn_find fun date hy hm hd' ↦ ?_)
    (hsorted.imp fun hlt a b ha hb ↦ ?_)
  · have hd := (List.mem_range'_1.mp hd).1
    exact hle date hy hm (by omega)
  · exact lt_of_fitsOn ha.2 hb.2 (Or.inr ⟨rfl, Or.inr ⟨rfl, hlt⟩⟩)

/-- The search of a year that is not before that of `t`. -/
theorem months_find (spec : Spec) (hy : t.date.year ≤ y) :
    Finds Soonest (fun nt ↦ ∃ m ∈ List.range' (if y = t.date.year then t.date.month else 1)
        (13 - if y = t.date.year then t.date.month else 1), spec.month.matches_ m ∧
      ∃ d ∈ List.range' (if y = t.date.year ∧ m = t.date.month then t.date.day else 1)
        (daysInMonth y m + 1 - if y = t.date.year ∧ m = t.date.month then t.date.day else 1),
        spec.dayOk y m d ∧ spec.FitsOn t y m d nt)
      (let m0 := if y = t.date.year then t.date.month else 1
      (List.range' m0 (13 - m0)).findSome? fun m ↦
        if spec.month.matches_ m then
          let d0 := if y = t.date.year ∧ m = t.date.month then t.date.day else 1
          (List.range' d0 (daysInMonth y m + 1 - d0)).findSome? (spec.elapseOn t y m)
        else none) := by
  refine Finds.findSome (fun m hm ↦ Finds.guard fun _ ↦ days_find fun date hy' hm' hd ↦ ?_)
    (List.Pairwise.imp (fun hlt a b ha hb ↦ ?_) List.pairwise_lt_range')
  · have hm := (List.mem_range'_1.mp hm).1
    apply NaiveDate.dayNumber_mono
    rcases lt_or_eq_of_le hy with hlt | heq
    · exact Or.inl (by omega)
    · rw [if_pos heq.symm, ← hm'] at hm
      refine Or.inr ⟨by omega, ?_⟩
      rcases Nat.lt_or_eq_of_le hm with hlt | hmeq
      · exact Or.inl hlt
      · rw [if_pos ⟨heq.symm, by omega⟩] at hd
        exact Or.inr ⟨hmeq, hd⟩
  · obtain ⟨-, d, -, -, ha⟩ := ha
    obtain ⟨-, d', -, -, hb⟩ := hb
    exact lt_of_fitsOn ha hb (Or.inr ⟨rfl, Or.inl hlt⟩)

variable {from_ : NaiveDateTime}

theorem later_localSecond (h : nt.nanosecond = 0) :
    nt.Later from_.localSecond ↔ nt.Later from_ := by
  rw [later_iff h, later_iff h]
  rfl

theorem nextElapse_find (spec : Spec) (from_ : NaiveDateTime) :
    Finds Soonest (spec.Wanted from_) (spec.nextElapse from_) := by
  have hfind := Finds.findSome
    (fun k (_ : k ∈ List.range (maxSearchYears + 1)) ↦ Finds.guard fun
      (_ : spec.year.matches_ ((from_.date.year + (k : Nat)) % 4294967296).toNat = true) ↦
      months_find (t := from_.localSecond) (y := from_.date.year + k) spec
        (Int.le_add_of_nonneg_right (Int.natCast_nonneg k)))
    (List.pairwise_lt_range.imp fun {k k'} hlt a b ha hb ↦ by
      obtain ⟨-, m, -, -, d, -, -, ha⟩ := ha
      obtain ⟨-, m', -, -, d', -, -, hb⟩ := hb
      exact lt_of_fitsOn ha hb (Or.inl (by omega)))
  apply hfind.congr
  intro nt
  constructor
  · rintro ⟨k, hk, hyear, m, -, hm, d, -, hok, ⟨hy, rfl, rfl⟩, hnano, ⟨hh, hmi, hs⟩, hlater⟩
    rw [← hy] at hyear hok
    have hk := List.mem_range.mp hk
    refine ⟨⟨hyear, hm, hok, hh, hmi, hs⟩, hnano, (later_localSecond hnano).mp hlater, ?_, ?_⟩
    all_goals omega
  · rintro ⟨⟨hyear, hmonth, hday, hh, hmi, hs⟩, hnano, hlater, hge, hle⟩
    obtain ⟨k, hk⟩ := Int.le.dest hge
    obtain ⟨-, -, hm1, hm12, hd1, hd2⟩ := nt.date.valid
    have hdate := dayNumber_le ((later_iff hnano).mp hlater).le
    have hdate := NaiveDate.dayNumber_le hdate
    rw [← hk] at hyear hd2 hday
    refine ⟨k, List.mem_range.mpr (by omega), hyear, nt.date.month, List.mem_range'_1.mpr ?_, hmonth,
      nt.date.day, List.mem_range'_1.mpr ?_, hday, ⟨hk.symm, rfl, rfl⟩, hnano, ⟨hh, hmi, hs⟩,
      (later_localSecond hnano).mpr hlater⟩
    · have hcond : (if from_.date.year + (k : Int) = from_.localSecond.date.year then
          from_.localSecond.date.month else 1) ≤ nt.date.month := by
        split
        · next h => exact (hdate.2 (h.symm.trans hk)).1
        · exact hm1
      omega
    · have hcond : (if from_.date.year + (k : Int) = from_.localSecond.date.year ∧
          nt.date.month = from_.localSecond.date.month then
            from_.localSecond.date.day else 1) ≤ nt.date.day := by
        split
        · next h => exact (hdate.2 (h.1.symm.trans hk)).2 h.2.symm
        · exact hd1
      omega

theorem eq_of_timestamp {a b : NaiveDateTime} (ha : a.nanosecond = 0) (hb : b.nanosecond = 0)
    (h : a.timestamp = b.timestamp) : a = b := by
  have hdate := NaiveDate.eq_of_dayNumber
    (le_antisymm (NaiveDateTime.dayNumber_le h.le) (NaiveDateTime.dayNumber_le h.ge))
  rw [timestamp_eq, timestamp_eq, hdate] at h
  have hva := a.valid
  have hvb := b.valid
  have htime : a.timeOfDay = b.timeOfDay := by omega
  unfold timeOfDay at htime
  obtain ⟨da, ha', mia, sa, na, va⟩ := a
  obtain ⟨db, hb', mib, sb, nb, vb⟩ := b
  cases hdate
  cases ha
  cases hb
  dsimp only at htime hva hvb
  obtain rfl : ha' = hb' := by omega
  obtain rfl : mia = mib := by omega
  obtain rfl : sa = sb := by omega
  rfl

/-- The search returns the least of the seconds that are wanted, and nothing only where there is
none. -/
theorem next_elapse_least (spec : Spec) (from_ : NaiveDateTime) :
    (∀ nt, spec.nextElapse from_ = some nt ↔
      spec.Wanted from_ nt ∧ ∀ nt', spec.Wanted from_ nt' → nt' = nt ∨ nt'.Later nt) ∧
    (spec.nextElapse from_ = none ↔ ∀ nt, ¬ spec.Wanted from_ nt) := by
  have hfind := nextElapse_find spec from_
  have hsoonest : ∀ nt nt', spec.Wanted from_ nt → spec.Wanted from_ nt' →
      (Soonest nt nt' ↔ nt' = nt ∨ nt'.Later nt) := by
    intro nt nt' hnt hnt'
    rw [later_iff hnt'.whole, Soonest]
    constructor
    · intro hle
      rcases lt_or_eq_of_le hle with hlt | heq
      · exact Or.inr hlt
      · exact Or.inl (eq_of_timestamp hnt'.whole hnt.whole heq.symm)
    · rintro (rfl | hlt)
      · exact le_rfl
      · exact hlt.le
  cases hnext : spec.nextElapse from_ with
  | none =>
    rw [hnext] at hfind
    refine ⟨fun nt ↦ ?_, fun _ ↦ hfind, fun _ ↦ rfl⟩
    constructor
    · intro h
      cases h
    · intro h
      exact (hfind nt h.1).elim
  | some least =>
    rw [hnext] at hfind
    obtain ⟨hleast, hle⟩ := hfind
    refine ⟨fun nt ↦ ?_, ?_⟩
    · constructor
      · intro h
        cases h
        exact ⟨hleast, fun nt' hnt' ↦ (hsoonest least nt' hleast hnt').mp (hle nt' hnt')⟩
      · intro h
        have h₁ := hle nt h.1
        have h₂ := (hsoonest nt least h.1 hleast).mpr (h.2 least hleast)
        rw [eq_of_timestamp hleast.whole h.1.whole (le_antisymm h₁ h₂)]
    · constructor
      · intro h
        cases h
      · intro h
        exact (h least hleast).elim

end Spec

end Rystemd.Calendar
