import Rystemd.Timers
import Mathlib.Data.Int.Order.Basic

namespace Rystemd.Calendar

/-- A field of a calendar expression. The parser sorts the values, and they are searched as such. -/
inductive Field
  | any
  | set (values : List Nat) (sorted : values.Pairwise (· < ·))
  deriving DecidableEq

namespace Field

/-- A binary search of sorted values finds what is there. -/
def matches_ : Field → Nat → Bool
  | any, _ => true
  | set values _, v => values.contains v

/-- The values from `ge` to `max` in ascending order. -/
def valuesGe : Field → Nat → Nat → List Nat
  | any, ge, max => List.range' ge (max + 1 - ge)
  | set values _, ge, max => values.filter fun v ↦ v ≥ ge && v ≤ max

end Field

structure Spec where
  year : Field := .any
  month : Field := .any
  day : Field := .any
  dow : Field := .any
  hour : Field := .any
  minute : Field := .any
  second : Field := .any

def daysInMonth (y : Int) (m : Nat) : Nat :=
  if m = 2 then if (y % 4 = 0 ∧ y % 100 ≠ 0) ∨ y % 400 = 0 then 29 else 28
  else if m = 4 ∨ m = 6 ∨ m = 9 ∨ m = 11 then 30
  else 31

/-- A date in the range of the date library. -/
def IsDate (y : Int) (m d : Nat) : Prop :=
  -262143 ≤ y ∧ y ≤ 262142 ∧ 1 ≤ m ∧ m ≤ 12 ∧ 1 ≤ d ∧ d ≤ daysInMonth y m

instance (y : Int) (m d : Nat) : Decidable (IsDate y m d) := inferInstanceAs (Decidable (_ ∧ _))

structure NaiveDate where
  year : Int
  month : Nat
  day : Nat
  valid : IsDate year month day

namespace NaiveDate

def fromYmd (y : Int) (m d : Nat) : Option NaiveDate :=
  if h : IsDate y m d then some ⟨y, m, d, h⟩ else none

/-- Days from the first day of the year 1 to the first day of a year. -/
def daysBeforeYear (y : Int) : Int :=
  365 * (y - 1) + (y - 1) / 4 - (y - 1) / 100 + (y - 1) / 400

/-- Days since the first day of 1970. -/
def dayNumber (d : NaiveDate) : Int :=
  daysBeforeYear d.year - 719162 +
    ((List.range' 1 (d.month - 1)).foldl (fun n m ↦ n + daysInMonth d.year m) 0 : Nat) + d.day - 1

/-- 1 is Monday and 7 is Sunday. -/
def weekday (d : NaiveDate) : Nat := ((d.dayNumber + 3) % 7).toNat + 1

end NaiveDate

structure NaiveDateTime where
  date : NaiveDate
  hour : Nat
  minute : Nat
  second : Nat
  nanosecond : Nat := 0
  valid : hour < 24 ∧ minute < 60 ∧ second < 60

namespace NaiveDateTime

def withHms (date : NaiveDate) (h mi s : Nat) : Option NaiveDateTime :=
  if hv : h < 24 ∧ mi < 60 ∧ s < 60 then
    some { date, hour := h, minute := mi, second := s, valid := hv }
  else none

/-- Seconds since 1970, as if the civil time were that of UTC. -/
def timestamp (t : NaiveDateTime) : Int :=
  t.date.dayNumber * 86400 + t.hour * 3600 + t.minute * 60 + t.second

def Later (a b : NaiveDateTime) : Prop :=
  b.timestamp < a.timestamp ∨ b.timestamp = a.timestamp ∧ b.nanosecond < a.nanosecond

instance (a b : NaiveDateTime) : Decidable (Later a b) := inferInstanceAs (Decidable (_ ∨ _))

def localSecond (t : NaiveDateTime) : NaiveDateTime := { t with nanosecond := 0 }

end NaiveDateTime

def maxSearchYears : Nat := 6

def weekdayNumber (y : Int) (m d : Nat) : Option Nat :=
  (NaiveDate.fromYmd y m d).map NaiveDate.weekday

namespace Spec

def dayOk (spec : Spec) (y : Int) (m d : Nat) : Bool :=
  match weekdayNumber y m d with
  | none => false
  | some dow =>
    match spec.day, spec.dow with
    | .any, .any => true
    | .any, dowf => dowf.matches_ dow
    | dayf, .any => dayf.matches_ d
    | dayf, dowf => dayf.matches_ d || dowf.matches_ dow

/-- The first time of day that fits, after the given one if `forceGt`. -/
def nextTime (spec : Spec) (h0 mi0 s0 : Nat) (forceGt : Bool) : Option (Nat × Nat × Nat) :=
  (spec.hour.valuesGe (if forceGt then h0 else 0) 23).findSome? fun h ↦
    (spec.minute.valuesGe (if forceGt && h == h0 then mi0 else 0) 59).findSome? fun mi ↦
      let s1 := if forceGt && h == h0 && mi == mi0 then s0 else 0
      (spec.second.valuesGe s1 59).findSome? fun s ↦
        if !forceGt || (h, mi, s) != (h0, mi0, s0) then some (h, mi, s) else none

/-- The elapse on a day, if there is one after `t`. -/
def elapseOn (spec : Spec) (t : NaiveDateTime) (y : Int) (m d : Nat) : Option NaiveDateTime :=
  if spec.dayOk y m d then do
    let sameDay := y = t.date.year && m = t.date.month && d = t.date.day
    let (h, mi, s) ← spec.nextTime t.hour t.minute t.second sameDay
    let date ← NaiveDate.fromYmd y m d
    let nt ← NaiveDateTime.withHms date h mi s
    if nt.Later t then some nt else none
  else none

/-- The next occurrence after `from_`, in the years that are searched. The year is compared as an
unsigned number of 32 bits. -/
def nextElapse (spec : Spec) (from_ : NaiveDateTime) : Option NaiveDateTime :=
  let t := from_.localSecond
  (List.range (maxSearchYears + 1)).findSome? fun k ↦
    let y := t.date.year + k
    if spec.year.matches_ (y % 4294967296).toNat then
      let m0 := if y = t.date.year then t.date.month else 1
      (List.range' m0 (13 - m0)).findSome? fun m ↦
        if spec.month.matches_ m then
          let d0 := if y = t.date.year ∧ m = t.date.month then t.date.day else 1
          (List.range' d0 (daysInMonth y m + 1 - d0)).findSome? (spec.elapseOn t y m)
        else none
    else none

theorem elapseOn_later {spec : Spec} {t nt : NaiveDateTime} {y : Int} {m d : Nat}
    (h : spec.elapseOn t y m d = some nt) : nt.Later t ∧ nt.nanosecond = 0 := by
  unfold elapseOn at h
  split at h
  · simp only [Option.bind_eq_bind, Option.bind_eq_some_iff] at h
    obtain ⟨_, _, date, _, nt', hnt, hlater⟩ := h
    split at hlater
    · rename_i hl
      cases hlater
      refine ⟨hl, ?_⟩
      unfold NaiveDateTime.withHms at hnt
      split at hnt
      · cases hnt
        rfl
      · cases hnt
    · cases hlater
  · cases h

/-- The next occurrence is in a later second. -/
theorem nextElapse_after {spec : Spec} {t nt : NaiveDateTime} (h : spec.nextElapse t = some nt) :
    t.timestamp < nt.timestamp := by
  unfold nextElapse at h
  obtain ⟨k, -, hk⟩ := List.exists_of_findSome?_eq_some h
  dsimp only at hk
  split at hk
  · obtain ⟨m, -, hm⟩ := List.exists_of_findSome?_eq_some hk
    split at hm
    · obtain ⟨d, -, hd⟩ := List.exists_of_findSome?_eq_some hm
      obtain ⟨hlater, hnano⟩ := elapseOn_later hd
      obtain hlt | ⟨-, hlt⟩ := hlater
      · exact hlt
      · rw [hnano] at hlt
        exact absurd hlt (Nat.not_lt_zero _)
    · cases hm
  · cases hk

end Spec

end Rystemd.Calendar
