import Mathlib.Algebra.Order.BigOperators.Group.List
import Mathlib.Algebra.Order.Ring.Nat
import Rystemd.TimeSpanText

namespace Rystemd.TimeSpan

open Binary64 Text

/-- `fmt_left`, for a duration of so many whole seconds. -/
def fmtLeft (secs : Nat) : String :=
  if 86400 ≤ secs then
    (secs / 86400).repr ++ " day" ++ (if secs / 86400 = 1 then "" else "s")
  else if 3600 ≤ secs then
    let h := secs / 3600
    let m := secs % 3600 / 60
    if m = 0 then h.repr ++ "h" else h.repr ++ "h " ++ m.repr ++ "min"
  else if 60 ≤ secs then (secs / 60).repr ++ "min"
  else secs.repr ++ "s"

/-- The text of a time span. -/
def display (t : TimeSpan) : String :=
  match t.asDuration with
  | none => "infinity"
  | some usec => fmtLeft (usec / 1000000)

/-- What the text of a time span is read as: below a minute whole seconds are kept, below a day
whole minutes. The text of a day or more has a space before its unit, and is not read at all. -/
def readBack (t : TimeSpan) : Parsed :=
  if t = TimeSpan.infinity then .ok TimeSpan.infinity
  else if t.usec < usecPerMin then .ok ⟨t.usec / usecPerSec * usecPerSec⟩
  else if t.usec < usecPerDay then .ok ⟨t.usec / usecPerMin * usecPerMin⟩
  else .error s!"missing number in time span `{t.display}`"

variable {checked : Bool} {ks : List Component} {s : String} {n secs : Nat}

theorem ofDigits_repr (n : Nat) : ofDigits n.repr.toList = n := by
  rw [Nat.toList_repr]
  exact Nat.ofDigitChars_toDigits (by omega) (by omega)

theorem isDigit_repr (n : Nat) : ∀ c ∈ n.repr.toList, c.isDigit := by
  rw [Nat.toList_repr]
  exact fun c hc ↦ Nat.isDigit_of_mem_toDigits (by omega) (by omega) hc

theorem repr_ne_nil (n : Nat) : n.repr.toList ≠ [] := by
  rw [Nat.toList_repr]
  exact Nat.toDigits_ne_nil

theorem hour_known : ['h'].all Char.isAlpha ∧ factorOf ['h'] = some usecPerHour := ⟨rfl, rfl⟩

theorem minute_known :
    ['m', 'i', 'n'].all Char.isAlpha ∧ factorOf ['m', 'i', 'n'] = some usecPerMin := ⟨rfl, rfl⟩

theorem second_known : ['s'].all Char.isAlpha ∧ factorOf ['s'] = some usecPerSec := ⟨rfl, rfl⟩

/-- A number that is written out, and its unit. -/
def Component.ofNat (n : Nat) (unit : List Char) (factor : Nat)
    (h : unit.all Char.isAlpha ∧ factorOf unit = some factor) : Component where
  digits := n.repr.toList
  unit := unit
  factor := factor
  ne := repr_ne_nil n
  isDigit := isDigit_repr n
  isAlpha := List.all_eq_true.mp h.1
  known := h.2

def Component.hours (n : Nat) : Component := .ofNat n ['h'] usecPerHour hour_known

def Component.minutes (n : Nat) : Component := .ofNat n ['m', 'i', 'n'] usecPerMin minute_known

def Component.seconds (n : Nat) : Component := .ofNat n ['s'] usecPerSec second_known

theorem Component.exact_ofNat {unit : List Char} {factor : Nat}
    (h : unit.all Char.isAlpha ∧ factorOf unit = some factor) :
    (Component.ofNat n unit factor h).exact = n * factor := by
  rw [Component.exact, Component.ofNat, ofDigits_repr]

/-- A text of components that are not too great is read exactly. -/
theorem parse_exact (hne : ks ≠ []) (h : Written ks s.toList)
    (hsum : (ks.map Component.exact).sum < 2 ^ 53) :
    parse checked s = .ok ⟨(ks.map Component.exact).sum⟩ := by
  have hsmall : ∀ k ∈ ks, k.exact < 2 ^ 53 := fun k hk ↦
    Nat.lt_of_le_of_lt
      (List.single_le_sum (fun _ _ ↦ Nat.zero_le _) _ (List.mem_map_of_mem hk)) hsum
  have hover : NoOverflow ks := by
    intro before k after hks hcut
    have hk : k.exact < 2 ^ 53 := hsmall k (by rw [hks]; simp)
    rw [k.product.exact hk, ← Component.exact] at hcut
    exact absurd hcut (by unfold maxU128; omega)
  exact (faithful_of_noOverflow hne h hover).small hsmall hsum

theorem written_single (k : Component) : Written [k] (k.digits ++ k.unit) := by
  have h : Written [k] ([] ++ (k.digits ++ (k.unit ++ []))) :=
    .cons (List.forall_mem_nil _) (fun _ c hc ↦ (nomatch hc)) (.nil (List.forall_mem_nil _))
  rwa [List.nil_append, List.append_nil] at h

theorem written_pair (k k' : Component) :
    Written [k, k'] (k.digits ++ (k.unit ++ (' ' :: (k'.digits ++ k'.unit)))) := by
  have hrest : Written [k'] ([' '] ++ (k'.digits ++ (k'.unit ++ []))) := by
    refine .cons ?_ (fun _ c hc ↦ (nomatch hc)) (.nil (List.forall_mem_nil _))
    intro c hc
    rw [List.mem_singleton] at hc
    rw [hc]
    rfl
  have h : Written [k, k']
      ([] ++ (k.digits ++ (k.unit ++ ([' '] ++ (k'.digits ++ (k'.unit ++ [])))))) := by
    refine .cons (List.forall_mem_nil _) (fun _ c hc ↦ ?_) hrest
    obtain rfl := Option.some.inj hc
    decide
  rwa [List.nil_append, List.append_nil] at h

theorem parse_single (k : Component) (h : s.toList = k.digits ++ k.unit) (hk : k.exact < 2 ^ 53) :
    parse checked s = .ok ⟨k.exact⟩ := by
  have hsum : ([k].map Component.exact).sum = k.exact := by
    rw [List.map_singleton, List.sum_singleton]
  have hparse := @parse_exact checked [k] s (List.cons_ne_nil _ _)
    (by rw [h]; exact written_single k)
  rw [hsum] at hparse
  exact hparse hk

theorem parse_pair (k k' : Component)
    (h : s.toList = k.digits ++ (k.unit ++ (' ' :: (k'.digits ++ k'.unit))))
    (hk : k.exact + k'.exact < 2 ^ 53) : parse checked s = .ok ⟨k.exact + k'.exact⟩ := by
  have hsum : ([k, k'].map Component.exact).sum = k.exact + k'.exact := by
    rw [List.map_cons, List.map_singleton, List.sum_cons, List.sum_singleton]
  have hparse := @parse_exact checked [k, k'] s (List.cons_ne_nil _ _)
    (by rw [h]; exact written_pair k k')
  rw [hsum] at hparse
  exact hparse hk

/-- Below a day the text is read back, less what is not shown. -/
theorem parse_fmtLeft (h : secs < 86400) : parse checked (fmtLeft secs) =
    .ok ⟨if secs < 60 then secs * usecPerSec else secs / 60 * usecPerMin⟩ := by
  have hhours (n : Nat) : (Component.hours n).exact = n * 3600000000 := Component.exact_ofNat ..
  have hminutes (n : Nat) : (Component.minutes n).exact = n * 60000000 := Component.exact_ofNat ..
  have hseconds (n : Nat) : (Component.seconds n).exact = n * 1000000 := Component.exact_ofNat ..
  have hsec : usecPerSec = 1000000 := rfl
  have hmin : usecPerMin = 60000000 := rfl
  unfold fmtLeft
  rw [if_neg (by omega)]
  dsimp only
  split
  · split
    · have hwhole : secs / 3600 * 3600000000 = secs / 60 * 60000000 := by omega
      rw [parse_single (.hours (secs / 3600)) (by simp [Component.hours, Component.ofNat])
        (by rw [hhours]; omega), hhours, if_neg (by omega), hmin, hwhole]
    · have hwhole : secs / 3600 * 3600000000 + secs % 3600 / 60 * 60000000 =
          secs / 60 * 60000000 := by omega
      rw [parse_pair (.hours (secs / 3600)) (.minutes (secs % 3600 / 60))
        (by simp [Component.hours, Component.minutes, Component.ofNat])
        (by rw [hhours, hminutes]; omega), hhours, hminutes, if_neg (by omega), hmin, hwhole]
  · split
    · rw [parse_single (.minutes (secs / 60)) (by simp [Component.minutes, Component.ofNat])
        (by rw [hminutes]; omega), hminutes, if_neg (by omega), hmin]
    · rw [parse_single (.seconds secs) (by simp [Component.seconds, Component.ofNat])
        (by rw [hseconds]; omega), hseconds, if_pos (by omega), hsec]

theorem readComponent_word {c : Char} {cs : List Char} (h : c.isAlpha) :
    readComponent s (c :: cs) = .error s!"missing number in time span `{s}`" := by
  have hnum : (c :: cs).takeWhile isNumberChar = [] := by
    rw [List.takeWhile_cons, if_neg (not_isNumberChar_of_isAlpha h)]
  unfold readComponent
  dsimp only
  rw [hnum, if_pos (.inl rfl)]

theorem parseFrom_days {w : List Char} (hn : n * usecPerSec < 2 ^ 53) :
    parseFrom checked s 0 0 (n.repr.toList ++ ' ' :: 'd' :: w) =
      .error s!"missing number in time span `{s}`" := by
  let k : Component := .ofNat n [] usecPerSec ⟨rfl, rfl⟩
  have hexact : k.exact = n * usecPerSec := Component.exact_ofNat ..
  have hmicros : k.micros = n * usecPerSec := by
    rw [← hexact]
    exact k.product.exact (by rw [← Component.exact, hexact]; exact hn)
  have hadd : addU128 checked 0 k.micros = some (n * usecPerSec) := by
    rw [addU128, hmicros, Nat.zero_add, if_pos (by unfold maxU128; omega)]
  have hread := @parseFrom_component checked s 0 k (' ' :: 'd' :: w)
    (fun c hc ↦ .inl (by obtain rfl := Option.some.inj hc; rfl))
    (fun _ c hc ↦ by obtain rfl := Option.some.inj hc; decide)
  have hfinite : ¬n * usecPerSec > TimeSpan.infinity.usec := by
    unfold TimeSpan.infinity
    dsimp only
    omega
  rw [hadd, Option.map_some, Option.getD_some, if_neg hfinite] at hread
  have hword : readComponent s ('d' :: w) = .error s!"missing number in time span `{s}`" :=
    readComponent_word (by decide)
  have hskip : parseFrom checked s 0 (n * usecPerSec) (' ' :: 'd' :: w) =
      .error s!"missing number in time span `{s}`" := by
    rw [parseFrom, if_pos (by rfl), parseFrom, if_neg (by decide), hword]
  exact hread.trans hskip

/-- A number of days is taken for seconds, and its unit for another component. -/
theorem parse_days {w : List Char} (hn : n * usecPerSec < 2 ^ 53)
    (hs : s.toList = n.repr.toList ++ ' ' :: 'd' :: w)
    (hw : ∀ c, ('d' :: w).getLast? = some c → isWhitespace c = false) :
    parse checked s = .error s!"missing number in time span `{s}`" := by
  obtain ⟨d, ds, hd⟩ := List.exists_cons_of_ne_nil (repr_ne_nil n)
  have hdigit : d.isDigit := isDigit_repr n d (hd ▸ List.mem_cons_self)
  have htrim : Trimmed s.toList := by
    constructor
    · intro c hc
      rw [hs, hd, List.cons_append, List.head?_cons, Option.some.injEq] at hc
      rw [← hc]
      exact Bool.eq_false_iff.mpr fun h ↦ (not_component_of_isWhitespace h).2.2 hdigit
    · intro c hc
      rw [hs, List.getLast?_append_of_ne_nil _ (List.cons_ne_nil _ _),
        List.getLast?_cons_cons] at hc
      exact hw c hc
  have hinfinity : s.map Char.toLower ≠ "infinity" := by
    intro h
    have hchars := congrArg String.toList h
    rw [String.toList_map, hs, hd, List.cons_append, List.map_cons] at hchars
    have hall : ∀ n : Fin 58, (Char.ofNat n.val).toLower ≠ 'i' := by decide
    have hlower := hall ⟨d.toNat, Nat.lt_succ_of_le (Text.isDigit_iff.mp hdigit).2⟩
    rw [Char.ofNat_toNat] at hlower
    exact hlower (List.cons.inj hchars).1
  have hempty : s ≠ "" := by
    intro h
    rw [h, hd] at hs
    cases hs
  rw [parse, htrim.trim, if_neg hinfinity, if_neg hempty, hs]
  exact parseFrom_days hn

/-- The text of every time span is read as `readBack` says, in a build that checks for overflow
and in one that does not. -/
theorem parse_display (checked : Bool) (n : UInt64) :
    parse checked (display ⟨n.toNat⟩) = readBack ⟨n.toNat⟩ := by
  have hlt : n.toNat < 18446744073709551616 := n.toNat_lt
  have hsec : usecPerSec = 1000000 := rfl
  have hmin : usecPerMin = 60000000 := rfl
  have hday : usecPerDay = 86400000000 := rfl
  unfold readBack
  split
  · next h =>
    rw [h]
    cases checked <;> decide +kernel
  · next h =>
    have htext : display ⟨n.toNat⟩ = fmtLeft (n.toNat / 1000000) := by
      rw [display, TimeSpan.asDuration, if_neg h]
    dsimp only
    split
    · rw [htext, parse_fmtLeft (by omega), if_pos (by omega), hsec]
    · split
      · have hwhole : n.toNat / 1000000 / 60 * usecPerMin = n.toNat / usecPerMin * usecPerMin := by
          rw [hmin]
          omega
        rw [htext, parse_fmtLeft (by omega), if_neg (by omega), hwhole]
      · have hdays : fmtLeft (n.toNat / 1000000) = (n.toNat / 1000000 / 86400).repr ++ " day" ++
            (if n.toNat / 1000000 / 86400 = 1 then "" else "s") := if_pos (by omega)
        rw [htext, hdays]
        split
        · refine parse_days (w := ['a', 'y']) (n := n.toNat / 1000000 / 86400) (by rw [hsec]; omega)
            (by simp) fun c hc ↦ ?_
          obtain rfl := Option.some.inj hc
          decide
        · refine parse_days (w := ['a', 'y', 's']) (n := n.toNat / 1000000 / 86400)
            (by rw [hsec]; omega) (by simp) fun c hc ↦ ?_
          obtain rfl := Option.some.inj hc
          decide

end Rystemd.TimeSpan
