import Rystemd.Elapse
import Rystemd.FieldExpressions

namespace Rystemd.Calendar

open Text Partial

/-- The field takes all values, or some of those of its bounds. -/
def Field.Within (f : Field) (min max : Nat) : Prop :=
  f = .any ∨ (∃ v, f.matches_ v) ∧ ∀ v, f.matches_ v → min ≤ v ∧ v ≤ max

section Within

variable {f : Field} {min max rounds : Nat} {tok : String} {names : Names} {vals : List Nat}

theorem within_ofValues (hne : vals ≠ []) (h : ∀ v ∈ vals, min ≤ v ∧ v ≤ max) :
    (Field.ofValues vals).Within min max := by
  obtain ⟨v, hv⟩ := List.exists_mem_of_ne_nil vals hne
  refine Or.inr ⟨⟨v, (FieldText.matches_ofValues vals v).mpr hv⟩, fun v hv ↦ ?_⟩
  exact h v ((FieldText.matches_ofValues vals v).mp hv)

theorem FieldText.parse_within {t : FieldText} (hmax : t.max ≤ u32Max) :
    Ensures (t.parse rounds) (Field.Within · t.min t.max) := by
  intro f h
  by_cases hw : t.Wild
  · rw [parse_wild hw] at h
    cases h
    exact Or.inl rfl
  · obtain ⟨-, vals, hne, rfl, hmem⟩ := parse_ok hmax hw h
    apply within_ofValues hne
    intro v hv
    obtain ⟨item, -, s, -, -, -, hmin, hmax⟩ := (hmem v).mp hv
    exact ⟨hmin, hmax⟩

theorem parseField_within (tok : String) (names : Names) (hmax : max ≤ u32Max) :
    Ensures (parseField rounds tok min max names) (Field.Within · min max) :=
  FieldText.parse_within (t := ⟨tok, min, max, names⟩) hmax

theorem Field.Within.exists_matches (h : f.Within min max) : ∃ v, f.matches_ v ∧ v ≤ max := by
  rcases h with rfl | ⟨⟨v, hv⟩, h⟩
  · exact ⟨max, rfl, le_rfl⟩
  · exact ⟨v, hv, (h v hv).2⟩

end Within

namespace Spec

/-- Each field is within the bounds of the parser. -/
structure WellFormed (spec : Spec) : Prop where
  year : spec.year.Within 1000 9999
  month : spec.month.Within 1 12
  day : spec.day.Within 1 31
  dow : spec.dow.Within 1 7
  hour : spec.hour.Within 0 23
  minute : spec.minute.Within 0 59
  second : spec.second.Within 0 59

variable {spec : Spec} {rounds : Nat} {tok s : String} {toks : List String}

theorem wellFormed_default : WellFormed {} :=
  ⟨Or.inl rfl, Or.inl rfl, Or.inl rfl, Or.inl rfl, Or.inl rfl, Or.inl rfl, Or.inl rfl⟩

theorem zero_within (max : Nat) : Field.zero.Within 0 max := by
  apply within_ofValues
  · simp
  · simp

theorem WellFormed.atMidnight (h : spec.WellFormed) : spec.atMidnight.WellFormed :=
  { h with hour := zero_within 23, minute := zero_within 59, second := zero_within 59 }

theorem abbreviation_wellFormed (h : abbreviation s = some spec) : spec.WellFormed := by
  have hdefault := wellFormed_default
  have hmonthly : WellFormed { day := .ofValues [1] } :=
    { hdefault with day := within_ofValues (by simp) (by simp) }
  unfold abbreviation at h
  split at h <;> cases h
  · exact { hdefault with second := zero_within 59 }
  · exact { hdefault with minute := zero_within 59, second := zero_within 59 }
  · exact hdefault.atMidnight
  · exact WellFormed.atMidnight { hdefault with dow := within_ofValues (by simp) (by simp) }
  · exact hmonthly.atMidnight
  · exact WellFormed.atMidnight { hmonthly with month := within_ofValues (by simp) (by simp) }
  · exact WellFormed.atMidnight { hmonthly with month := within_ofValues (by simp) (by simp) }
  · exact WellFormed.atMidnight { hmonthly with month := within_ofValues (by simp) (by simp) }
  · exact WellFormed.atMidnight { hmonthly with month := within_ofValues (by simp) (by simp) }

theorem parseParts_wellFormed (h : spec.WellFormed) (parts : List String) (step : Option Nat) :
    Ensures (parseParts rounds tok spec parts step) WellFormed := by
  have hour : ∀ tok, Ensures (parseField rounds tok 0 23 []) (Field.Within · 0 23) :=
    fun tok ↦ parseField_within tok [] (by decide)
  have minute : ∀ tok, Ensures (parseField rounds tok 0 59 []) (Field.Within · 0 59) :=
    fun tok ↦ parseField_within tok [] (by decide)
  have two : ∀ a b, Ensures (do
      let hour ← parseField rounds a 0 23 []
      let minute ← parseField rounds b 0 59 []
      return { spec with hour, minute, second := .zero }) WellFormed :=
    fun a b ↦ (hour a).bind fun _ ha ↦ (minute b).bind fun _ hb ↦
      .pure { h with hour := ha, minute := hb, second := zero_within 59 }
  have three : ∀ a b c, Ensures (do
      let hour ← parseField rounds a 0 23 []
      let minute ← parseField rounds b 0 59 []
      let second ← parseField rounds c 0 59 []
      return { spec with hour, minute, second }) WellFormed :=
    fun a b c ↦ (hour a).bind fun _ ha ↦ (minute b).bind fun _ hb ↦ (minute c).bind fun _ hc ↦
      .pure { h with hour := ha, minute := hb, second := hc }
  unfold parseParts
  split
  · exact two _ _
  · exact two _ _
  · exact three _ _ _
  · exact three _ _ _
  · exact .throw _

theorem parseTime_wellFormed (h : spec.WellFormed) :
    Ensures (parseTime rounds tok spec) WellFormed := by
  have hsplit : Ensures (ExceptT.mk (some (splitTime tok))) fun _ ↦ True := .lift fun _ _ ↦ trivial
  exact hsplit.bind fun p _ ↦ parseParts_wellFormed h p.1 p.2

theorem parseDate_wellFormed (h : spec.WellFormed) :
    Ensures (parseDate rounds tok spec) WellFormed := by
  unfold parseDate
  split
  · refine (parseField_within _ [] (by decide)).bind fun _ hyear ↦ ?_
    refine (parseField_within _ monthNames (by decide)).bind fun _ hmonth ↦ ?_
    refine (parseField_within _ [] (by decide)).bind fun _ hday ↦ ?_
    exact .pure { h with year := hyear, month := hmonth, day := hday }
  · exact .throw _

theorem parseTokens_wellFormed {haveTime haveDate : Bool} (h : spec.WellFormed) :
    Ensures (parseTokens rounds s toks haveTime haveDate spec) WellFormed := by
  induction toks generalizing haveTime haveDate spec with
  | nil =>
    apply Ensures.pure
    split
    · exact h
    · exact h.atMidnight
  | cons tok toks ih =>
    rw [parseTokens]
    split
    · cases haveTime with
      | true => exact .throw _
      | false => exact (parseTime_wellFormed h).bind fun _ h ↦ ih h
    · cases haveDate with
      | true => exact .throw _
      | false => exact (parseDate_wellFormed h).bind fun _ h ↦ ih h

theorem parseFirst_wellFormed (h : spec.WellFormed) :
    Ensures (parseFirst rounds toks spec) fun r ↦ r.1.WellFormed := by
  unfold parseFirst
  split
  · split
    · exact (parseField_within _ wdayNames (by decide)).bind fun _ hdow ↦
        .pure { h with dow := hdow }
    · exact .pure h
  · exact .pure h

theorem parseLast_wellFormed (h : spec.WellFormed) :
    Ensures (parseLast rounds toks spec) fun r ↦ r.1.WellFormed := by
  unfold parseLast
  split
  · split
    · exact (parseField_within _ wdayNames (by decide)).bind fun _ hdow ↦
        .pure { h with dow := hdow }
    · exact .pure h
  · exact .pure h

/-- What is parsed has all its fields within their bounds. -/
theorem parse_wellFormed : Ensures (parse rounds s) WellFormed := by
  unfold parse
  dsimp only
  split
  · exact .throw _
  · split
    · next habbr => exact .pure (abbreviation_wellFormed habbr)
    · split
      · exact .throw _
      · refine (parseFirst_wellFormed wellFormed_default).bind fun first hfirst ↦ ?_
        refine (parseLast_wellFormed hfirst).bind fun last hlast ↦ ?_
        exact parseTokens_wellFormed hlast

section DayOk

variable {date : NaiveDate}

theorem dayOk_any (h : spec.day = .any ∨ spec.dow = .any) :
    spec.dayOk date.year date.month date.day ↔
      spec.day.matches_ date.day ∧ spec.dow.matches_ date.weekday := by
  unfold dayOk weekdayNumber
  rw [fromYmd_self]
  cases hd : spec.day with
  | any =>
    cases hw : spec.dow with
    | any => simp [Field.matches_]
    | set values sorted => simp [Field.matches_]
  | set values sorted =>
    have hw : spec.dow = .any := h.resolve_left (by simp [hd])
    simp [hw, Field.matches_]

/-- With both parts either of them is enough. -/
theorem dayOk_either (hd : spec.day ≠ .any) (hw : spec.dow ≠ .any) :
    spec.dayOk date.year date.month date.day ↔
      spec.day.matches_ date.day ∨ spec.dow.matches_ date.weekday := by
  unfold dayOk weekdayNumber
  rw [fromYmd_self]
  cases hday : spec.day with
  | any => exact absurd hday hd
  | set values sorted =>
    cases hdow : spec.dow with
    | any => exact absurd hdow hw
    | set values' sorted' => simp

theorem dayOk_of_both (hd : spec.day.matches_ date.day) (hw : spec.dow.matches_ date.weekday) :
    spec.dayOk date.year date.month date.day := by
  by_cases h : spec.day = .any ∨ spec.dow = .any
  · exact (dayOk_any h).mpr ⟨hd, hw⟩
  · push Not at h
    exact (dayOk_either h.1 h.2).mpr (Or.inl hd)

end DayOk

/-- All fields of the expression match, the weekday and the day of the month among them. -/
structure MatchesAll (spec : Spec) (nt : NaiveDateTime) : Prop where
  year : spec.year.matches_ (nt.date.year % 4294967296).toNat
  month : spec.month.matches_ nt.date.month
  day : spec.day.matches_ nt.date.day
  dow : spec.dow.matches_ nt.date.weekday
  hour : spec.hour.matches_ nt.hour
  minute : spec.minute.matches_ nt.minute
  second : spec.second.matches_ nt.second

/-- What the search returns matches in all fields, and it skips no earlier second that does. -/
def BothMatch (spec : Spec) : Prop :=
  ∀ from_ nt, spec.nextElapse from_ = some nt →
    (spec.dow.matches_ nt.date.weekday ∧ spec.day.matches_ nt.date.day) ∧
    ∀ nt', spec.MatchesAll nt' → nt'.nanosecond = 0 → nt'.Later from_ → ¬ nt.Later nt'

/-- On every date of a month and a year that match, the day is in its field just where the weekday is
in its one. -/
def DatesAgree (spec : Spec) : Prop :=
  ∀ date : NaiveDate, spec.year.matches_ (date.year % 4294967296).toNat →
    spec.month.matches_ date.month → (spec.day.matches_ date.day ↔ spec.dow.matches_ date.weekday)

variable {from_ nt : NaiveDateTime}

theorem wanted_of_some (h : spec.nextElapse from_ = some nt) :
    spec.Wanted from_ nt ∧ ∀ nt', spec.Wanted from_ nt' → nt.timestamp ≤ nt'.timestamp := by
  have hfind := nextElapse_find spec from_
  rw [h] at hfind
  exact hfind

theorem MatchesAll.fits (h : spec.MatchesAll nt) : spec.Fits nt :=
  ⟨h.year, h.month, dayOk_of_both h.day h.dow, h.hour, h.minute, h.second⟩

/-- No second that matches in all fields is skipped, whatever the fields are. -/
theorem not_skipped (h : spec.nextElapse from_ = some nt) {nt' : NaiveDateTime}
    (hall : spec.MatchesAll nt') (hwhole : nt'.nanosecond = 0) (hlater : nt'.Later from_) :
    ¬ nt.Later nt' := by
  obtain ⟨hwanted, hleast⟩ := wanted_of_some h
  intro hlt
  have hlt := (NaiveDateTime.later_iff hwanted.whole).mp hlt
  have hafter := (NaiveDateTime.later_iff hwhole).mp hlater
  have hge := (NaiveDate.dayNumber_le (NaiveDateTime.dayNumber_le hafter.le)).1
  have hle := (NaiveDate.dayNumber_le (NaiveDateTime.dayNumber_le hlt.le)).1
  have hmax := hwanted.year_le
  have := hleast nt' ⟨hall.fits, hwhole, hlater, hge, by omega⟩
  omega

theorem bothMatch_of_agree (h : spec.day = .any ∨ spec.dow = .any ∨ spec.DatesAgree) :
    spec.BothMatch := by
  intro from_ nt hnext
  refine ⟨?_, fun nt' ↦ not_skipped hnext⟩
  have hfits := (wanted_of_some hnext).1.fits
  by_cases hany : spec.day = .any ∨ spec.dow = .any
  · exact ((dayOk_any hany).mp hfits.day).symm
  · have hagree := (h.resolve_left fun h ↦ hany (Or.inl h)).resolve_left fun h ↦ hany (Or.inr h)
    push Not at hany
    have hiff := hagree nt.date hfits.year hfits.month
    rcases (dayOk_either hany.1 hany.2).mp hfits.day with hday | hdow
    · exact ⟨hiff.mp hday, hday⟩
    · exact ⟨hdow, hiff.mpr hdow⟩

/-- The search from the last second of the day before finds a second of each date that is ok. -/
theorem exists_next (hspec : spec.WellFormed) {a b : NaiveDate} (hab : NaiveDate.Follows a b)
    (hy : spec.year.matches_ (b.year % 4294967296).toNat) (hm : spec.month.matches_ b.month)
    (hok : spec.dayOk b.year b.month b.day) :
    ∃ from_ nt, spec.nextElapse from_ = some nt ∧ nt.date = b := by
  obtain ⟨h, hh, hh23⟩ := hspec.hour.exists_matches
  obtain ⟨mi, hmi, hmi59⟩ := hspec.minute.exists_matches
  obtain ⟨s, hs, hs59⟩ := hspec.second.exists_matches
  obtain ⟨from_, rfl, hhour, hminute, hsecond⟩ : ∃ from_ : NaiveDateTime, from_.date = a ∧
      from_.hour = 23 ∧ from_.minute = 59 ∧ from_.second = 59 :=
    ⟨⟨a, 23, 59, 59, 0, by omega⟩, rfl, rfl, rfl, rfl⟩
  obtain ⟨nt', rfl, rfl, rfl, rfl, hwhole⟩ : ∃ nt' : NaiveDateTime, nt'.date = b ∧ nt'.hour = h ∧
      nt'.minute = mi ∧ nt'.second = s ∧ nt'.nanosecond = 0 :=
    ⟨⟨b, h, mi, s, 0, by omega⟩, rfl, rfl, rfl, rfl, rfl⟩
  have hday := hab.dayNumber_eq
  have hle := NaiveDate.dayNumber_le (a := from_.date) (b := nt'.date) (by omega)
  have hyear : nt'.date.year ≤ from_.date.year + 6 := by cases hab <;> omega
  have hlater : nt'.Later from_ :=
    Or.inl (NaiveDateTime.timestamp_lt_of_dayNumber (by omega))
  have hwanted : spec.Wanted from_ nt' :=
    ⟨⟨hy, hm, hok, hh, hmi, hs⟩, hwhole, hlater, hle.1, hyear⟩
  cases hnext : spec.nextElapse from_ with
  | none =>
    have hfind := nextElapse_find spec from_
    rw [hnext] at hfind
    exact (hfind nt' hwanted).elim
  | some nt =>
    obtain ⟨hnt, hleast⟩ := wanted_of_some hnext
    refine ⟨from_, nt, hnext, NaiveDate.eq_of_dayNumber (le_antisymm ?_ ?_)⟩
    · exact NaiveDateTime.dayNumber_le (hleast nt' hwanted)
    · have hlater := (NaiveDateTime.later_iff hnt.whole).mp hnt.later
      rw [NaiveDateTime.timestamp_eq, NaiveDateTime.timestamp_eq] at hlater
      have hlt := nt.timeOfDay_lt
      unfold NaiveDateTime.timeOfDay at hlater hlt
      omega

/-- A date whose year matches is not the first of the range, or it is again 400 years later. -/
theorem year_later (hspec : spec.WellFormed) (date : NaiveDate)
    (hy : spec.year.matches_ (date.year % 4294967296).toNat) :
    ∃ date' : NaiveDate, -262143 < date'.year ∧ date'.month = date.month ∧ date'.day = date.day ∧
      date'.weekday = date.weekday ∧ spec.year.matches_ (date'.year % 4294967296).toNat := by
  obtain ⟨hge, hle, hrest⟩ := date.valid
  by_cases hfirst : -262143 < date.year
  · exact ⟨date, hfirst, rfl, rfl, rfl, hy⟩
  rcases hspec.year with hany | ⟨-, hyears⟩
  · have hvalid : IsDate (date.year + 400) date.month date.day := by
      unfold IsDate
      rw [NaiveDate.daysInMonth_cycle]
      omega
    refine ⟨⟨date.year + 400, date.month, date.day, hvalid⟩, ?_, rfl, rfl, ?_, by rw [hany]; rfl⟩
    · change -262143 < date.year + 400
      omega
    · exact NaiveDate.weekday_cycle rfl rfl rfl
  · have := (hyears _ hy).2
    omega

theorem agree_of_bothMatch (hspec : spec.WellFormed) (h : spec.BothMatch) (hd : spec.day ≠ .any)
    (hw : spec.dow ≠ .any) : spec.DatesAgree := by
  intro date hy hm
  obtain ⟨date', hlater, hmonth, hday, hdow, hy'⟩ := year_later hspec date hy
  rw [← hmonth] at hm
  rw [← hday, ← hdow]
  by_contra hne
  have hok : spec.dayOk date'.year date'.month date'.day := by
    rw [dayOk_either hd hw]
    by_contra hnone
    push Not at hnone
    exact hne ⟨fun h ↦ absurd h hnone.1, fun h ↦ absurd h hnone.2⟩
  obtain ⟨a, hab⟩ := NaiveDate.exists_before date' (Or.inl hlater)
  obtain ⟨from_, nt, hnext, rfl⟩ := exists_next hspec hab hy' hm hok
  obtain ⟨hdow, hday⟩ := (h from_ nt hnext).1
  exact hne ⟨fun _ ↦ hdow, fun _ ↦ hday⟩

/-- The parts of a parsed expression are both heeded exactly where one of them takes everything, or
no date tells them apart. -/
theorem weekday_and_date_iff (h : parse rounds s = some (.ok spec)) :
    spec.BothMatch ↔ spec.day = .any ∨ spec.dow = .any ∨ spec.DatesAgree := by
  constructor
  · intro hboth
    by_cases hd : spec.day = .any
    · exact Or.inl hd
    by_cases hw : spec.dow = .any
    · exact Or.inr (Or.inl hw)
    · exact Or.inr (Or.inr (agree_of_bothMatch (parse_wellFormed spec h) hboth hd hw))
  · exact bothMatch_of_agree

/-- The first week's Mondays, as the expression says. -/
def firstMonday : Spec :=
  { day := .ofValues [1, 2, 3, 4, 5, 6, 7], dow := .ofValues [1], hour := .ofValues [9],
    minute := .ofValues [0], second := .zero }

deriving instance DecidableEq for Spec

instance : DecidableEq (ExceptT String Option Spec) :=
  inferInstanceAs (DecidableEq (Option (Except String Spec)))

theorem every_monday : ∃ spec, parse 60 "Mon *-*-* 09:00" = some (.ok spec) ∧ spec.BothMatch := by
  have hparse : parse 60 "Mon *-*-* 09:00" = some (.ok { firstMonday with day := .any }) := by
    decide +kernel
  exact ⟨_, hparse, (weekday_and_date_iff hparse).mpr (Or.inl rfl)⟩

/-- The first day of 2026 is a Thursday. -/
def newYear : NaiveDateTime :=
  { date := ⟨2026, 1, 1, by decide⟩, hour := 0, minute := 0, second := 0, valid := by decide }

theorem first_week_daily : ∃ spec, parse 60 "Mon *-*-01..07 09:00" = some (.ok spec) ∧
    spec.day ≠ .any ∧ spec.dow ≠ .any ∧ ¬ spec.BothMatch := by
  have hparse : parse 60 "Mon *-*-01..07 09:00" = some (.ok firstMonday) := by decide +kernel
  have hthursday : (firstMonday.nextElapse newYear).map (·.date.weekday) = some 4 := by
    decide +kernel
  refine ⟨firstMonday, hparse, by decide +kernel, by decide +kernel, fun h ↦ ?_⟩
  obtain ⟨nt, hnext, hday⟩ := Option.map_eq_some_iff.mp hthursday
  have hdow := (h newYear nt hnext).1.1
  rw [hday] at hdow
  have hnot : ¬ firstMonday.dow.matches_ 4 = true := by decide +kernel
  exact hnot hdow

end Spec

end Rystemd.Calendar
