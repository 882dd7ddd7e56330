import Rystemd.Calendar

namespace Rystemd.Calendar

namespace NaiveDate

/-- Days from the first day of a year to the first day of a month of it. -/
def daysBeforeMonth (y : Int) (m : Nat) : Nat :=
  (List.range' 1 (m - 1)).foldl (fun n m ↦ n + daysInMonth y m) 0

variable {y y' : Int} {m m' d d' : Nat} {a b : NaiveDate}

theorem daysBeforeMonth_succ (h : 1 ≤ m) :
    daysBeforeMonth y (m + 1) = daysBeforeMonth y m + daysInMonth y m := by
  obtain ⟨k, rfl⟩ := Nat.exists_eq_add_of_le h
  have hsub : 1 + k + 1 - 1 = k + 1 := by omega
  have hsub' : 1 + k - 1 = k := by omega
  rw [daysBeforeMonth, daysBeforeMonth, hsub, hsub', List.range'_1_concat, List.foldl_append]
  rfl

theorem daysBeforeMonth_le (h : 1 ≤ m) (hm : m < m') :
    daysBeforeMonth y m + daysInMonth y m ≤ daysBeforeMonth y m' := by
  induction m' with
  | zero => omega
  | succ n ih =>
    rcases Nat.lt_succ_iff_lt_or_eq.mp hm with hm | rfl
    · have := ih hm
      have := daysBeforeMonth_succ (y := y) (m := n) (by omega)
      omega
    · rw [daysBeforeMonth_succ h]

theorem daysBeforeMonth_year : daysBeforeMonth y 13 =
    if (y % 4 = 0 ∧ y % 100 ≠ 0) ∨ y % 400 = 0 then 366 else 365 := by
  have hmonths : List.range' 1 (13 - 1) = [1, 2, 3, 4, 5, 6, 7, 8, 9, 10, 11, 12] := by decide
  rw [daysBeforeMonth, hmonths]
  simp only [List.foldl_cons, List.foldl_nil]
  by_cases h : (y % 4 = 0 ∧ y % 100 ≠ 0) ∨ y % 400 = 0
  · have hfeb : daysInMonth y 2 = 29 := (if_pos rfl).trans (if_pos h)
    rw [hfeb, if_pos h]
    rfl
  · have hfeb : daysInMonth y 2 = 28 := (if_pos rfl).trans (if_neg h)
    rw [hfeb, if_neg h]
    rfl

theorem daysBeforeYear_succ : daysBeforeYear (y + 1) = daysBeforeYear y + daysBeforeMonth y 13 := by
  rw [daysBeforeMonth_year]
  unfold daysBeforeYear
  split <;> omega

theorem daysBeforeYear_le (h : y < y') :
    daysBeforeYear y + daysBeforeMonth y 13 ≤ daysBeforeYear y' := by
  obtain ⟨n, rfl⟩ : ∃ n : Nat, y' = y + 1 + n := ⟨(y' - y - 1).toNat, by omega⟩
  clear h
  induction n with
  | zero => rw [Nat.cast_zero, Int.add_zero, daysBeforeYear_succ]
  | succ n ih =>
    have hs := daysBeforeYear_succ (y := y + 1 + n)
    rw [Nat.cast_succ, ← Int.add_assoc]
    omega

theorem dayNumber_eq (a : NaiveDate) : a.dayNumber =
    daysBeforeYear a.year - 719162 + (daysBeforeMonth a.year a.month : Nat) + a.day - 1 := rfl

/-- The days of a month are numbered below those of any later month. -/
theorem dayNumber_lt (h : a.year < b.year ∨ a.year = b.year ∧ (a.month < b.month ∨
    a.month = b.month ∧ a.day < b.day)) : a.dayNumber < b.dayNumber := by
  obtain ⟨-, -, ha, ha', hd, hd'⟩ := a.valid
  obtain ⟨-, -, hb, hb', he, he'⟩ := b.valid
  rw [dayNumber_eq, dayNumber_eq]
  rcases h with h | ⟨h, h' | ⟨h', h''⟩⟩
  · have h₁ := daysBeforeYear_le h
    have hlast : a.month < 13 := by omega
    have h₂ := daysBeforeMonth_le (y := a.year) ha hlast
    omega
  · have h₁ := daysBeforeMonth_le (y := a.year) ha h'
    rw [← h]
    omega
  · rw [← h, ← h']
    omega

theorem dayNumber_le (h : a.dayNumber ≤ b.dayNumber) : a.year ≤ b.year ∧
    (a.year = b.year → a.month ≤ b.month ∧ (a.month = b.month → a.day ≤ b.day)) := by
  have hlt : ¬ (b.year < a.year ∨ b.year = a.year ∧ (b.month < a.month ∨
      b.month = a.month ∧ b.day < a.day)) := fun h' ↦ by
    have := dayNumber_lt h'
    omega
  omega

theorem eq_of_fields (hy : a.year = b.year) (hm : a.month = b.month) (hd : a.day = b.day) :
    a = b := by
  cases a
  cases b
  cases hy
  cases hm
  cases hd
  rfl

theorem eq_of_dayNumber (h : a.dayNumber = b.dayNumber) : a = b := by
  have h₁ := dayNumber_le h.le
  have h₂ := dayNumber_le h.ge
  apply eq_of_fields <;> omega

theorem dayNumber_mono (h : a.year < b.year ∨ a.year = b.year ∧ (a.month < b.month ∨
    a.month = b.month ∧ a.day ≤ b.day)) : a.dayNumber ≤ b.dayNumber := by
  by_contra hlt
  have hle := dayNumber_le (a := b) (b := a) (by omega)
  have heq : a = b := by apply eq_of_fields <;> omega
  rw [heq] at hlt
  exact hlt le_rfl

theorem daysInMonth_bounds (y : Int) (m : Nat) : 28 ≤ daysInMonth y m ∧ daysInMonth y m ≤ 31 := by
  unfold daysInMonth
  split
  · split <;> omega
  · split <;> omega

/-- One day comes after the other: in a month, at the end of a month or at the end of a year. -/
inductive Follows (a b : NaiveDate) : Prop
  | day : b.year = a.year → b.month = a.month → b.day = a.day + 1 → Follows a b
  | month : b.year = a.year → b.month = a.month + 1 → a.day = daysInMonth a.year a.month →
      b.day = 1 → Follows a b
  | year : b.year = a.year + 1 → a.month = 12 → a.day = 31 → b.month = 1 → b.day = 1 → Follows a b

theorem Follows.dayNumber_eq (h : Follows a b) : b.dayNumber = a.dayNumber + 1 := by
  obtain ⟨-, -, hm, -, hd, -⟩ := a.valid
  rw [NaiveDate.dayNumber_eq, NaiveDate.dayNumber_eq]
  cases h with
  | day hy hm hd =>
    rw [hy, hm, hd]
    omega
  | month hy hm' hd hd' =>
    rw [hy, hm', hd, hd', daysBeforeMonth_succ hm]
    omega
  | year hy hm hd hm' hd' =>
    have hfirst : daysBeforeMonth (a.year + 1) 1 = 0 := rfl
    have hlast := daysBeforeMonth_succ (y := a.year) (m := 12) (by omega)
    have hdays : daysInMonth a.year 12 = 31 := rfl
    rw [hdays] at hlast
    rw [hy, hm, hd, hm', hd', hfirst, daysBeforeYear_succ, hlast]
    omega

/-- Each date but the first of the range has a day before it. -/
theorem exists_before (b : NaiveDate) (h : -262143 < b.year ∨ 1 < b.month ∨ 1 < b.day) :
    ∃ a, Follows a b := by
  obtain ⟨hy, hy', hm, hm', hd, hd'⟩ := b.valid
  by_cases hday : 1 < b.day
  · have hvalid : IsDate b.year b.month (b.day - 1) := by
      unfold IsDate
      omega
    have hsub : b.day = b.day - 1 + 1 := by omega
    exact ⟨⟨b.year, b.month, b.day - 1, hvalid⟩, .day rfl rfl hsub⟩
  by_cases hmonth : 1 < b.month
  · have hdays := daysInMonth_bounds b.year (b.month - 1)
    have hvalid : IsDate b.year (b.month - 1) (daysInMonth b.year (b.month - 1)) := by
      unfold IsDate
      omega
    have hsub : b.month = b.month - 1 + 1 := by omega
    exact ⟨⟨b.year, b.month - 1, _, hvalid⟩, .month rfl hsub rfl (by omega)⟩
  · have hdays : daysInMonth (b.year - 1) 12 = 31 := rfl
    have hvalid : IsDate (b.year - 1) 12 31 := by
      unfold IsDate
      omega
    have hsub : b.year = b.year - 1 + 1 := by omega
    exact ⟨⟨b.year - 1, 12, 31, hvalid⟩, .year hsub rfl rfl (by omega) (by omega)⟩

theorem daysInMonth_cycle (y : Int) (m : Nat) : daysInMonth (y + 400) m = daysInMonth y m := by
  have hleap : ((y + 400) % 4 = 0 ∧ (y + 400) % 100 ≠ 0 ∨ (y + 400) % 400 = 0) ↔
      (y % 4 = 0 ∧ y % 100 ≠ 0 ∨ y % 400 = 0) := by omega
  unfold daysInMonth
  simp only [hleap]

/-- The weekdays repeat after 400 years. -/
theorem weekday_cycle (hy : b.year = a.year + 400) (hm : b.month = a.month) (hd : b.day = a.day) :
    b.weekday = a.weekday := by
  have hmonths : daysBeforeMonth b.year b.month = daysBeforeMonth a.year a.month := by
    simp only [daysBeforeMonth, hy, hm, daysInMonth_cycle]
  have hyears : daysBeforeYear b.year = daysBeforeYear a.year + 146097 := by
    unfold daysBeforeYear
    omega
  unfold weekday
  rw [dayNumber_eq, dayNumber_eq, hmonths, hyears, hd]
  omega

end NaiveDate

namespace NaiveDateTime

variable {a b : NaiveDateTime}

/-- Seconds since midnight. -/
def timeOfDay (a : NaiveDateTime) : Nat := a.hour * 3600 + a.minute * 60 + a.second

theorem timeOfDay_lt (a : NaiveDateTime) : a.timeOfDay < 86400 := by
  obtain ⟨hh, hm, hs⟩ := a.valid
  unfold timeOfDay
  omega

theorem timestamp_eq (a : NaiveDateTime) :
    a.timestamp = a.date.dayNumber * 86400 + (a.timeOfDay : Nat) := by
  unfold timestamp timeOfDay
  push_cast
  omega

theorem dayNumber_le (h : a.timestamp ≤ b.timestamp) :
    a.date.dayNumber ≤ b.date.dayNumber := by
  have ha := a.timeOfDay_lt
  have hb := b.timeOfDay_lt
  rw [timestamp_eq, timestamp_eq] at h
  omega

theorem timestamp_lt_of_dayNumber (h : a.date.dayNumber < b.date.dayNumber) :
    a.timestamp < b.timestamp := by
  have ha := a.timeOfDay_lt
  have hb := b.timeOfDay_lt
  rw [timestamp_eq, timestamp_eq]
  omega

end NaiveDateTime

end Rystemd.Calendar
