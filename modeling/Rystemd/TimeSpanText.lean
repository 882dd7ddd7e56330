import Mathlib.Tactic.SplitIfs
import Rystemd.Library.Binary64
import Rystemd.Library.Text
import Rystemd.Units

namespace Rystemd

open Binary64 Text

namespace TimeSpan

def usecPerSec : Nat := 1000000

def usecPerMin : Nat := 60 * usecPerSec

def usecPerHour : Nat := 60 * usecPerMin

def usecPerDay : Nat := 24 * usecPerHour

def usecPerWeek : Nat := 7 * usecPerDay

def usecPerMonth : Nat := usecPerDay * 36525 / 12 / 100

def usecPerYear : Nat := usecPerDay * 36525 / 100

/-- The microseconds of a unit. Its names are compared in lower case, so `M` is never found. -/
def unitFactor (unit : List Char) : Option Nat :=
  let lower := String.ofList (unit.map Char.toLower)
  if lower ∈ ["usec", "us", "µs"] then some 1
  else if lower ∈ ["msec", "ms"] then some 1000
  else if lower ∈ ["seconds", "second", "sec", "s"] then some usecPerSec
  else if lower ∈ ["minutes", "minute", "min", "m"] then some usecPerMin
  else if lower ∈ ["hours", "hour", "hr", "h"] then some usecPerHour
  else if lower ∈ ["days", "day", "d"] then some usecPerDay
  else if lower ∈ ["weeks", "week", "w"] then some usecPerWeek
  else if lower ∈ ["months", "month", "mon", "M"] then some usecPerMonth
  else if lower ∈ ["years", "year", "y"] then some usecPerYear
  else none

/-- The factor of a number; one without a unit counts seconds. -/
def factorOf (unit : List Char) : Option Nat :=
  if unit = [] then some usecPerSec else unitFactor unit

def isNumberChar (c : Char) : Bool := c.isDigit || c = '.'

/-- The number that digits stand for. -/
def ofDigits (ds : List Char) : Nat := ds.foldl (fun n d ↦ 10 * n + (d.toNat - '0'.toNat)) 0

/-- The double of digits with at most one point. -/
def parseF64 (num : List Char) : Option Value :=
  if num.count '.' ≤ 1 then
    some (round (ofDigits (num.filter (· ≠ '.')))
      (10 ^ ((num.dropWhile (· ≠ '.')).drop 1).length))
  else none

/-- How the parser ends; in a build that checks for overflow an addition can panic. -/
inductive Parsed
  | ok (t : TimeSpan)
  | error (e : String)
  | panicked
  deriving DecidableEq

/-- The addition of two unsigned numbers of 128 bits. -/
def addU128 (checked : Bool) (a b : Nat) : Option Nat :=
  if a + b ≤ maxU128 then some (a + b)
  else if checked then none else some ((a + b) % (maxU128 + 1))

/-- The microseconds of the component at the start of some characters, and its length. -/
def readComponent (s : String) (cs : List Char) : Except String (Nat × Nat) :=
  let num := cs.takeWhile isNumberChar
  let unit := (cs.drop num.length).takeWhile Char.isAlpha
  if num = [] ∨ num = ['.'] ∨ num.getLast? = some '.' then
    .error s!"missing number in time span `{s}`"
  else
    match parseF64 num with
    | none => .error s!"invalid number `{String.ofList num}` in time span `{s}`"
    | some value =>
      match factorOf unit with
      | none => .error s!"invalid time unit `{String.ofList unit}` in time span `{s}`"
      | some factor => .ok ((value.mul (round factor 1)).toU128, num.length + unit.length)

/-- The loop over the characters, which first passes over those of a component it has read. -/
def parseFrom (checked : Bool) (s : String) : Nat → Nat → List Char → Parsed
  | _, total, [] => .ok ⟨total⟩
  | skipped + 1, total, _ :: cs => parseFrom checked s skipped total cs
  | 0, total, c :: cs =>
    if isWhitespace c then parseFrom checked s 0 total cs
    else
      match readComponent s (c :: cs) with
      | .error e => .error e
      | .ok (micros, length) =>
        match addU128 checked total micros with
        | none => .panicked
        | some total =>
          if total > TimeSpan.infinity.usec then .error s!"time span `{s}` overflows"
          else parseFrom checked s (length - 1) total cs

/-- Parse a time span, in a build that checks for overflow or in one that does not. -/
def parse (checked : Bool) (s : String) : Parsed :=
  let s := trim s
  if s.map Char.toLower = "infinity" then .ok TimeSpan.infinity
  else if s = "" then .error "empty time span"
  else parseFrom checked s 0 0 s.toList

example : parse true " 1h 30MIN0.5s" = .ok ⟨5400500000⟩ := by decide +kernel

/-- A number and its unit. -/
structure Component where
  digits : List Char
  unit : List Char
  factor : Nat
  ne : digits ≠ []
  isDigit : ∀ c ∈ digits, c.isDigit
  isAlpha : ∀ c ∈ unit, c.isAlpha
  known : factorOf unit = some factor

namespace Component

/-- What a component stands for. -/
def exact (k : Component) : Nat := ofDigits k.digits * k.factor

/-- What the parser adds for a component. -/
def micros (k : Component) : Nat := ((round (ofDigits k.digits) 1).mul (round k.factor 1)).toU128

end Component

/-- The texts of components, with white space around them. -/
inductive Written : List Component → List Char → Prop
  | nil {ws : List Char} : (∀ c ∈ ws, isWhitespace c) → Written [] ws
  | cons {ws cs : List Char} {k : Component} {ks : List Component} : (∀ c ∈ ws, isWhitespace c) →
      (k.unit = [] → ∀ c ∈ cs.head?, ¬ c.isDigit) → Written ks cs →
      Written (k :: ks) (ws ++ (k.digits ++ (k.unit ++ cs)))

/-- The loop over the values of components. -/
def sumFrom (checked : Bool) (s : String) : Nat → List Nat → Parsed
  | total, [] => .ok ⟨total⟩
  | total, y :: ys =>
    match addU128 checked total y with
    | none => .panicked
    | some total =>
      if total > TimeSpan.infinity.usec then .error s!"time span `{s}` overflows"
      else sumFrom checked s total ys

section Characters

variable {c : Char}

theorem toNat_of_isWhitespace (h : isWhitespace c) : c.toNat ≤ 32 ∨ 133 ≤ c.toNat := by
  unfold isWhitespace at h
  dsimp only at h
  simp only [Bool.or_eq_true, Bool.and_eq_true, decide_eq_true_eq, List.mem_cons,
    List.not_mem_nil, or_false] at h
  omega

theorem toNat_of_isNumberChar (h : isNumberChar c) : 46 ≤ c.toNat ∧ c.toNat ≤ 57 := by
  rw [isNumberChar, Bool.or_eq_true, decide_eq_true_eq] at h
  rcases h with h | rfl
  · have := isDigit_iff.mp h
    omega
  · decide

/-- White space is in neither a number nor a unit. -/
theorem not_component_of_isWhitespace (h : isWhitespace c) :
    ¬ isNumberChar c ∧ ¬ c.isAlpha ∧ ¬ c.isDigit := by
  have hspace := toNat_of_isWhitespace h
  refine ⟨fun hnum ↦ ?_, fun halpha ↦ ?_, fun hdigit ↦ ?_⟩
  · have := toNat_of_isNumberChar hnum
    omega
  · have := isAlpha_iff.mp halpha
    omega
  · have := isDigit_iff.mp hdigit
    omega

theorem isNumberChar_of_isDigit (h : c.isDigit) : isNumberChar c := by
  rw [isNumberChar, h, Bool.true_or]

theorem not_isNumberChar_of_isAlpha (h : c.isAlpha) : ¬ isNumberChar c := by
  intro hnum
  have halpha := isAlpha_iff.mp h
  have hrange := toNat_of_isNumberChar hnum
  omega

theorem not_isAlpha_of_isDigit (h : c.isDigit) : ¬ c.isAlpha := by
  intro halpha
  exact not_isNumberChar_of_isAlpha halpha (isNumberChar_of_isDigit h)

theorem ne_point_of_isDigit (h : c.isDigit) : c ≠ '.' := by
  rintro rfl
  revert h
  decide

end Characters

variable {checked : Bool} {s : String} {total : Nat} {k : Component} {ks : List Component}
  {cs ws num : List Char} {ys : List Nat}

theorem factor_bounds (h : factorOf cs = some total) : 0 < total ∧ total < 2 ^ 53 := by
  unfold factorOf unitFactor at h
  dsimp only at h
  split_ifs at h <;> cases h <;> decide

theorem takeWhile_append {p : Char → Bool} {a b : List Char} (ha : ∀ c ∈ a, p c)
    (hb : ∀ c ∈ b.head?, ¬ p c) : (a ++ b).takeWhile p = a := by
  rw [List.takeWhile_append_of_pos ha]
  cases b with
  | nil => simp
  | cons c b => rw [List.takeWhile_cons, if_neg (hb c rfl), List.append_nil]

/-- What follows a component starts with white space or with a digit. -/
theorem Written.head (h : Written ks cs) : ∀ c ∈ cs.head?, isWhitespace c ∨ c.isDigit := by
  intro c hc
  cases h with
  | nil hws => exact .inl (hws c (List.mem_of_mem_head? hc))
  | @cons ws cs k ks hws _ _ =>
    cases ws with
    | cons d ws =>
      obtain rfl := Option.some.inj hc
      exact .inl (hws _ List.mem_cons_self)
    | nil =>
      obtain ⟨d, ds, hdigits⟩ := List.exists_cons_of_ne_nil k.ne
      rw [List.nil_append, hdigits] at hc
      obtain rfl := Option.some.inj hc
      exact .inr (k.isDigit _ (hdigits ▸ List.mem_cons_self))

theorem parseF64_digits (h : ∀ c ∈ num, c.isDigit) :
    parseF64 num = some (round (ofDigits num) 1) := by
  have hpoint : '.' ∉ num := fun hmem ↦ ne_point_of_isDigit (h '.' hmem) rfl
  have hfilter : num.filter (· ≠ '.') = num := by
    rw [List.filter_eq_self]
    intro c hc
    simpa using ne_point_of_isDigit (h c hc)
  have hfraction : num.dropWhile (· ≠ '.') = [] := by
    rw [List.dropWhile_eq_nil_iff]
    intro c hc
    simpa using ne_point_of_isDigit (h c hc)
  rw [parseF64, List.count_eq_zero.mpr hpoint, if_pos (Nat.zero_le 1), hfilter, hfraction]
  rfl

theorem parseFrom_skip (n : Nat) :
    parseFrom checked s n total cs = parseFrom checked s 0 total (cs.drop n) := by
  induction n generalizing cs with
  | zero => rfl
  | succ n ih =>
    cases cs with
    | nil => simp [parseFrom]
    | cons c cs => exact ih

theorem parseFrom_whitespace (h : ∀ c ∈ ws, isWhitespace c) :
    parseFrom checked s 0 total (ws ++ cs) = parseFrom checked s 0 total cs := by
  induction ws with
  | nil => rfl
  | cons c ws ih =>
    rw [List.cons_append, parseFrom, if_pos (h c List.mem_cons_self)]
    exact ih fun c hc ↦ h c (List.mem_cons_of_mem _ hc)

/-- A component is read up to the white space or the digit behind it. -/
theorem readComponent_eq (hcs : ∀ c ∈ cs.head?, isWhitespace c ∨ c.isDigit)
    (hapart : k.unit = [] → ∀ c ∈ cs.head?, ¬ c.isDigit) :
    readComponent s (k.digits ++ (k.unit ++ cs)) =
      .ok (k.micros, k.digits.length + k.unit.length) := by
  have hnum : (k.digits ++ (k.unit ++ cs)).takeWhile isNumberChar = k.digits := by
    apply takeWhile_append fun c hc ↦ isNumberChar_of_isDigit (k.isDigit c hc)
    intro c hc
    cases hunit : k.unit with
    | nil =>
      rw [hunit, List.nil_append] at hc
      rcases hcs c hc with hspace | hdigit
      · exact (not_component_of_isWhitespace hspace).1
      · exact absurd hdigit (hapart hunit c hc)
    | cons d unit =>
      rw [hunit] at hc
      obtain rfl := Option.some.inj hc
      exact not_isNumberChar_of_isAlpha (k.isAlpha _ (hunit ▸ List.mem_cons_self))
  have hunit : (k.unit ++ cs).takeWhile Char.isAlpha = k.unit := by
    apply takeWhile_append k.isAlpha
    intro c hc
    rcases hcs c hc with hspace | hdigit
    · exact (not_component_of_isWhitespace hspace).2.1
    · exact not_isAlpha_of_isDigit hdigit
  have hlast : ¬ (k.digits = [] ∨ k.digits = ['.'] ∨ k.digits.getLast? = some '.') := by
    rintro (hnil | hpoint | hpoint)
    · exact k.ne hnil
    · exact ne_point_of_isDigit (k.isDigit '.' (hpoint ▸ List.mem_cons_self)) rfl
    · exact ne_point_of_isDigit (k.isDigit '.' (List.mem_of_getLast? hpoint)) rfl
  unfold readComponent
  dsimp only
  rw [hnum, List.drop_left, hunit, if_neg hlast, parseF64_digits k.isDigit, k.known,
    Component.micros]

/-- One component is read, and the loop goes on behind it. -/
theorem parseFrom_component (hcs : ∀ c ∈ cs.head?, isWhitespace c ∨ c.isDigit)
    (hapart : k.unit = [] → ∀ c ∈ cs.head?, ¬ c.isDigit) :
    parseFrom checked s 0 total (k.digits ++ (k.unit ++ cs)) =
      ((addU128 checked total k.micros).map fun total ↦
        if total > TimeSpan.infinity.usec then Parsed.error s!"time span `{s}` overflows"
        else parseFrom checked s 0 total cs).getD .panicked := by
  have hread := readComponent_eq (s := s) hcs hapart
  obtain ⟨d, ds, hdigits⟩ := List.exists_cons_of_ne_nil k.ne
  have hdigit : ¬ isWhitespace d := by
    intro hspace
    exact (not_component_of_isWhitespace hspace).2.2 (k.isDigit d (hdigits ▸ List.mem_cons_self))
  have hcons : k.digits ++ (k.unit ++ cs) = d :: (ds ++ (k.unit ++ cs)) := by
    rw [hdigits]
    rfl
  have hrest : (ds ++ (k.unit ++ cs)).drop (k.digits.length + k.unit.length - 1) = cs := by
    rw [← List.append_assoc]
    apply List.drop_left'
    rw [List.length_append, hdigits, List.length_cons]
    omega
  rw [hcons] at hread ⊢
  rw [parseFrom, if_neg hdigit]
  split
  · next e he =>
    rw [hread] at he
    cases he
  · next micros length hok =>
    rw [hread] at hok
    obtain ⟨rfl, rfl⟩ := Prod.mk.inj (Except.ok.inj hok)
    cases addU128 checked total k.micros with
    | none => rfl
    | some total =>
      dsimp only [Option.map_some, Option.getD_some]
      rw [parseFrom_skip, hrest]

theorem sumFrom_cons {y : Nat} : sumFrom checked s total (y :: ys) =
    ((addU128 checked total y).map fun total ↦
      if total > TimeSpan.infinity.usec then Parsed.error s!"time span `{s}` overflows"
      else sumFrom checked s total ys).getD .panicked := by
  rw [sumFrom]
  cases addU128 checked total y with
  | none => rfl
  | some total => rfl

/-- The loop over the text of components adds up their values. -/
theorem parseFrom_written (h : Written ks cs) :
    parseFrom checked s 0 total cs = sumFrom checked s total (ks.map Component.micros) := by
  induction h generalizing total with
  | @nil ws hws =>
    have hspace : parseFrom checked s 0 total (ws ++ []) = parseFrom checked s 0 total [] :=
      parseFrom_whitespace hws
    rw [List.append_nil] at hspace
    rw [hspace]
    rfl
  | @cons ws cs k ks hws hapart hrest ih =>
    rw [parseFrom_whitespace hws, parseFrom_component hrest.head hapart, List.map_cons,
      sumFrom_cons]
    simp only [ih]

/-- The values of components, added up without an overflow, or an error. -/
theorem sumFrom_fits (htotal : total ≤ TimeSpan.infinity.usec)
    (h : ∀ before y after, ys = before ++ y :: after →
      total + before.sum ≤ TimeSpan.infinity.usec → total + before.sum + y ≤ maxU128) :
    sumFrom checked s total ys = if total + ys.sum ≤ TimeSpan.infinity.usec then
      .ok ⟨total + ys.sum⟩ else .error s!"time span `{s}` overflows" := by
  induction ys generalizing total with
  | nil => rw [sumFrom, List.sum_nil, Nat.add_zero, if_pos htotal]
  | cons y ys ih =>
    have hadd : addU128 checked total y = some (total + y) := by
      rw [addU128, if_pos]
      exact h [] y ys rfl htotal
    rw [sumFrom_cons, hadd, Option.map_some, Option.getD_some, List.sum_cons, ← Nat.add_assoc]
    by_cases hgreat : total + y > TimeSpan.infinity.usec
    · rw [if_pos hgreat, if_neg]
      omega
    · rw [if_neg hgreat]
      apply ih (Nat.le_of_not_lt hgreat)
      intro before y' after hys hle
      have hnext := h (y :: before) y' after (by rw [hys, List.cons_append])
      rw [List.sum_cons, ← Nat.add_assoc] at hnext
      exact hnext hle

/-- The addition that overflows panics in a build that checks. -/
theorem sumFrom_panics {before after : List Nat} {y : Nat}
    (hfits : total + before.sum ≤ TimeSpan.infinity.usec)
    (hover : maxU128 < total + before.sum + y) :
    sumFrom true s total (before ++ y :: after) = .panicked := by
  induction before generalizing total with
  | nil =>
    rw [List.sum_nil, Nat.add_zero] at hover
    rw [List.nil_append, sumFrom_cons, addU128, if_neg (Nat.not_le.mpr hover)]
    rfl
  | cons x before ih =>
    rw [List.sum_cons, ← Nat.add_assoc] at hfits hover
    have hx : total + x ≤ TimeSpan.infinity.usec := Nat.le_trans (Nat.le_add_right ..) hfits
    have hmax : TimeSpan.infinity.usec ≤ maxU128 := by decide
    rw [List.cons_append, sumFrom_cons, addU128, if_pos (Nat.le_trans hx hmax), Option.map_some,
      Option.getD_some, if_neg (Nat.not_lt.mpr hx)]
    exact ih hfits hover

theorem rdropWhile_append {p : Char → Bool} {a b : List Char} {c : Char}
    (hlast : a.getLast? = some c) (hc : ¬ p c) : (a ++ b).rdropWhile p = a ++ b.rdropWhile p := by
  have hhead : a.reverse.head? = some c := by rw [List.head?_reverse, hlast]
  obtain ⟨rest, hrest⟩ := List.head?_eq_some_iff.mp hhead
  have hdrop : a.reverse.dropWhile p = a.reverse := by
    rw [hrest, List.dropWhile_cons, if_neg hc]
  rw [List.rdropWhile, List.rdropWhile, List.reverse_append, List.dropWhile_append]
  split
  · next hempty =>
    rw [List.isEmpty_iff.mp hempty, hdrop, List.reverse_reverse, List.reverse_nil, List.append_nil]
  · rw [List.reverse_append, List.reverse_reverse]

theorem dropWhile_whitespace (h : ∀ c ∈ ws, isWhitespace c) :
    (ws ++ cs).dropWhile isWhitespace = cs.dropWhile isWhitespace := by
  rw [List.dropWhile_append_of_pos h]

/-- The last character of a component is no white space. -/
theorem Component.last (k : Component) :
    ∃ c, (k.digits ++ k.unit).getLast? = some c ∧ ¬ isWhitespace c := by
  have hne : k.digits ++ k.unit ≠ [] := by
    intro hnil
    exact k.ne (List.append_eq_nil_iff.mp hnil).1
  obtain ⟨c, hc⟩ := Option.ne_none_iff_exists'.mp (mt List.getLast?_eq_none_iff.mp hne)
  refine ⟨c, hc, fun hspace ↦ ?_⟩
  obtain ⟨-, halpha, hdigit⟩ := not_component_of_isWhitespace hspace
  rcases List.mem_append.mp (List.mem_of_getLast? hc) with hmem | hmem
  · exact hdigit (k.isDigit c hmem)
  · exact halpha (k.isAlpha c hmem)

theorem Written.trimStart (h : Written ks cs) : Written ks (cs.dropWhile isWhitespace) := by
  cases h with
  | nil hws =>
    rw [List.dropWhile_eq_nil_iff.mpr hws]
    exact .nil fun c hc ↦ (List.not_mem_nil hc).elim
  | @cons ws cs k ks hws hapart hrest =>
    obtain ⟨d, ds, hdigits⟩ := List.exists_cons_of_ne_nil k.ne
    have hdigit : ¬ isWhitespace d := by
      intro hspace
      exact (not_component_of_isWhitespace hspace).2.2 (k.isDigit d (hdigits ▸ List.mem_cons_self))
    have hdrop : (k.digits ++ (k.unit ++ cs)).dropWhile isWhitespace =
        k.digits ++ (k.unit ++ cs) := by
      rw [hdigits, List.cons_append, List.dropWhile_cons, if_neg hdigit]
    rw [dropWhile_whitespace hws, hdrop]
    exact .cons (fun c hc ↦ (List.not_mem_nil hc).elim) hapart hrest

theorem Written.trimEnd (h : Written ks cs) : Written ks (cs.rdropWhile isWhitespace) := by
  induction h with
  | nil hws =>
    rw [List.rdropWhile_eq_nil_iff.mpr hws]
    exact .nil fun c hc ↦ (List.not_mem_nil hc).elim
  | @cons ws cs k ks hws hapart _ ih =>
    obtain ⟨c, hlast, hc⟩ := k.last
    have hlast' : (ws ++ (k.digits ++ k.unit)).getLast? = some c := by
      rw [List.getLast?_append, hlast]
      rfl
    have hassoc : ws ++ (k.digits ++ (k.unit ++ cs)) = (ws ++ (k.digits ++ k.unit)) ++ cs := by
      rw [List.append_assoc, List.append_assoc]
    rw [hassoc, rdropWhile_append hlast' hc, List.append_assoc, List.append_assoc]
    apply Written.cons hws _ ih
    intro hunit d hd
    obtain ⟨rest, hrest⟩ := List.rdropWhile_prefix isWhitespace cs
    apply hapart hunit d
    rw [← hrest, List.head?_append]
    rw [Option.mem_def] at hd ⊢
    rw [hd]
    rfl

theorem Written.trim (h : Written ks s.toList) : Written ks (Text.trim s).toList := by
  rw [Text.trim, Text.trimEnd, Text.trimStart, String.toList_ofList, String.toList_ofList]
  exact h.trimStart.trimEnd

/-- A text of components without white space in front begins with a digit. -/
theorem Written.first (h : Written ks cs) (hne : ks ≠ [])
    (hhead : ∀ c, cs.head? = some c → isWhitespace c = false) :
    ∃ d rest, cs = d :: rest ∧ d.isDigit := by
  cases h with
  | nil hws => exact absurd rfl hne
  | @cons ws cs k ks hws hapart hrest =>
    cases ws with
    | cons c ws =>
      have hspace := hws c List.mem_cons_self
      rw [hhead c rfl] at hspace
      cases hspace
    | nil =>
      obtain ⟨d, ds, hdigits⟩ := List.exists_cons_of_ne_nil k.ne
      refine ⟨d, ds ++ (k.unit ++ cs), ?_, k.isDigit d (hdigits ▸ List.mem_cons_self)⟩
      rw [hdigits]
      rfl

/-- The text of components is the sum of their values. -/
theorem parse_written (hne : ks ≠ []) (h : Written ks s.toList) :
    parse checked s = sumFrom checked (Text.trim s) 0 (ks.map Component.micros) := by
  have htrim := h.trim
  obtain ⟨d, rest, hlist, hdigit⟩ := htrim.first hne (trimmed_trim s).head
  have hlower : d.toLower ≠ 'i' := by
    have hall : ∀ n : Fin 58, (Char.ofNat n.val).toLower ≠ 'i' := by decide
    have hd := hall ⟨d.toNat, Nat.lt_succ_of_le (isDigit_iff.mp hdigit).2⟩
    rwa [Char.ofNat_toNat] at hd
  have hinfinity : (Text.trim s).map Char.toLower ≠ "infinity" := by
    intro heq
    have hchars := congrArg String.toList heq
    rw [String.toList_map, hlist, List.map_cons] at hchars
    exact hlower (List.cons.inj hchars).1
  have hempty : Text.trim s ≠ "" := by
    intro heq
    rw [heq] at hlist
    cases hlist
  rw [parse, if_neg hinfinity, if_neg hempty, parseFrom_written htrim]

/-- What the parser must make of a text of components. -/
structure Faithful (checked : Bool) (ks : List Component) (s : String) : Prop where
  large : 2 ^ 65 ≤ (ks.map Component.exact).sum → ∃ e, parse checked s = .error e
  small : (∀ k ∈ ks, k.exact < 2 ^ 53) → (ks.map Component.exact).sum < 2 ^ 53 →
    parse checked s = .ok ⟨(ks.map Component.exact).sum⟩
  returns : parse checked s ≠ .panicked
  unwrapped : ∀ t, parse checked s = .ok t → t.usec = (ks.map Component.micros).sum

/-- A component whose value is cut to the greatest number of 128 bits follows none, or those before
it are already too many. -/
def NoOverflow (ks : List Component) : Prop :=
  ∀ before k after, ks = before ++ k :: after → k.micros = maxU128 →
    (before.map Component.micros).sum = 0 ∨
      TimeSpan.infinity.usec < (before.map Component.micros).sum

theorem Component.product (k : Component) :
    Product (ofDigits k.digits) k.factor k.micros := by
  obtain ⟨hpos, hlt⟩ := factor_bounds k.known
  have hproduct := toU128_mul (ofDigits k.digits) hpos hlt
  rw [Component.micros]
  exact hproduct

/-- The values are at least half of what the components stand for, if none is cut. -/
theorem exact_le (h : ∀ k ∈ ks, k.micros < maxU128) :
    (ks.map Component.exact).sum ≤ 2 * (ks.map Component.micros).sum := by
  induction ks with
  | nil => exact Nat.le_refl _
  | cons k ks ih =>
    have hk := k.product.half (h k List.mem_cons_self)
    have hks := ih fun k' hk' ↦ h k' (List.mem_cons_of_mem _ hk')
    rw [List.map_cons, List.map_cons, List.sum_cons, List.sum_cons, Component.exact]
    omega

theorem micros_eq (h : ∀ k ∈ ks, k.exact < 2 ^ 53) :
    ks.map Component.micros = ks.map Component.exact := by
  apply List.map_congr_left
  intro k hk
  exact k.product.exact (h k hk)

theorem micros_le (hk : k ∈ ks) : k.micros ≤ (ks.map Component.micros).sum := by
  obtain ⟨before, after, rfl⟩ := List.append_of_mem hk
  rw [List.map_append, List.sum_append, List.map_cons, List.sum_cons]
  omega

/-- Without an overflow the parser adds up the values. -/
theorem parse_of_noOverflow (hne : ks ≠ []) (h : Written ks s.toList) (hover : NoOverflow ks) :
    parse checked s = if (ks.map Component.micros).sum ≤ TimeSpan.infinity.usec then
      .ok ⟨(ks.map Component.micros).sum⟩
    else .error s!"time span `{Text.trim s}` overflows" := by
  have hmax : 2 ^ 128 - 2 ^ 64 + TimeSpan.infinity.usec = maxU128 := by decide
  rw [parse_written hne h, sumFrom_fits (Nat.zero_le _), Nat.zero_add]
  intro before y after hys hfits
  obtain ⟨before', rest, rfl, rfl, hrest⟩ := List.map_eq_append_iff.mp hys
  obtain ⟨k, after', rfl, rfl, rfl⟩ := List.map_eq_cons_iff.mp hrest
  rw [Nat.zero_add] at hfits ⊢
  rcases Nat.lt_or_eq_of_le k.product.le with hlt | heq
  · have hcoarse := k.product.coarse hlt
    omega
  · rcases hover before' k after' rfl heq with hzero | hgreat
    · rw [hzero, heq, Nat.zero_add]
    · exact absurd hfits (Nat.not_le.mpr hgreat)

theorem faithful_of_noOverflow (hne : ks ≠ []) (h : Written ks s.toList) (hover : NoOverflow ks) :
    Faithful checked ks s := by
  have hparse := @parse_of_noOverflow checked _ _ hne h hover
  have hinfinity : TimeSpan.infinity.usec + 1 = 2 ^ 64 := by decide
  have hmax : TimeSpan.infinity.usec < maxU128 := by decide
  constructor
  · intro hlarge
    have hgreat : ¬ (ks.map Component.micros).sum ≤ TimeSpan.infinity.usec := by
      intro hle
      have hexact := exact_le fun k hk ↦
        Nat.lt_of_le_of_lt (Nat.le_trans (micros_le hk) hle) hmax
      omega
    rw [hparse, if_neg hgreat]
    exact ⟨_, rfl⟩
  · intro hsmall hsum
    rw [hparse, micros_eq hsmall, if_pos]
    omega
  · rw [hparse]
    split
    · exact fun heq ↦ by cases heq
    · exact fun heq ↦ by cases heq
  · intro t ht
    rw [hparse] at ht
    split at ht
    · cases ht
      rfl
    · cases ht

/-- Time spans are parsed faithfully, in a build that checks for overflow and in one that does not,
if no component that is cut follows components that are not zero and not too many. -/
theorem parse_never_wraps_iff (hne : ks ≠ []) (h : Written ks s.toList) :
    (∀ checked, Faithful checked ks s) ↔ NoOverflow ks := by
  constructor
  · rintro hfaithful before k after rfl hcut
    by_contra hbad
    rw [not_or, Nat.not_lt] at hbad
    obtain ⟨hpos, hfits⟩ := hbad
    apply (hfaithful true).returns
    rw [parse_written hne h, List.map_append, List.map_cons]
    apply sumFrom_panics
    · rw [Nat.zero_add]
      exact hfits
    · rw [hcut, Nat.zero_add]
      omega
  · exact fun hover _ ↦ faithful_of_noOverflow hne h hover

def oneHour : Component where
  digits := ['1']
  unit := ['h']
  factor := usecPerHour
  ne := by decide
  isDigit := List.all_eq_true.mp (by decide)
  isAlpha := List.all_eq_true.mp (by decide)
  known := by decide

def thirtyMinutes : Component where
  digits := ['3', '0']
  unit := ['m', 'i', 'n']
  factor := usecPerMin
  ne := by decide
  isDigit := List.all_eq_true.mp (by decide)
  isAlpha := List.all_eq_true.mp (by decide)
  known := by decide

theorem parse_never_wraps_iff_hour : Written [oneHour, thirtyMinutes] "1h 30min".toList ∧
    NoOverflow [oneHour, thirtyMinutes] ∧
    ∀ checked, Faithful checked [oneHour, thirtyMinutes] "1h 30min" := by
  have hwritten : Written [oneHour, thirtyMinutes] "1h 30min".toList :=
    @Written.cons [] _ oneHour _ (List.all_eq_true.mp rfl) (fun h ↦ by cases h)
      (@Written.cons [' '] _ thirtyMinutes _ (List.all_eq_true.mp rfl) (fun h ↦ by cases h)
        (.nil fun c hc ↦ (List.not_mem_nil hc).elim))
  have hover : NoOverflow [oneHour, thirtyMinutes] := by
    intro before k after hks hcut
    have hmem : k ∈ [oneHour, thirtyMinutes] := by
      rw [hks]
      exact List.mem_append_right _ List.mem_cons_self
    rw [List.mem_cons, List.mem_singleton] at hmem
    rcases hmem with rfl | rfl
    · have hless : oneHour.micros ≠ maxU128 := by decide +kernel
      exact absurd hcut hless
    · have hless : thirtyMinutes.micros ≠ maxU128 := by decide +kernel
      exact absurd hcut hless
  exact ⟨hwritten, hover, (parse_never_wraps_iff (List.cons_ne_nil _ _) hwritten).mpr hover⟩

def oneSecond : Component where
  digits := ['1']
  unit := ['s']
  factor := usecPerSec
  ne := by decide
  isDigit := List.all_eq_true.mp (by decide)
  isAlpha := List.all_eq_true.mp (by decide)
  known := by decide

/-- A decillion seconds. -/
def ages : Component where
  digits := '1' :: List.replicate 33 '0'
  unit := ['s']
  factor := usecPerSec
  ne := by decide
  isDigit := List.all_eq_true.mp (by decide)
  isAlpha := List.all_eq_true.mp (by decide)
  known := by decide

/-- The second component is cut to the greatest number of 128 bits, and wraps the first one. -/
theorem second_wrapped : Written [oneSecond, ages] "1s 1000000000000000000000000000000000s".toList ∧
    2 ^ 65 ≤ ([oneSecond, ages].map Component.exact).sum ∧
    parse true "1s 1000000000000000000000000000000000s" = .panicked ∧
    parse false "1s 1000000000000000000000000000000000s" = .ok ⟨999999⟩ := by
  refine ⟨?_, ?_, ?_, ?_⟩
  · exact @Written.cons [] _ oneSecond _ (List.all_eq_true.mp rfl) (fun h ↦ by cases h)
      (@Written.cons [' '] _ ages _ (List.all_eq_true.mp rfl) (fun h ↦ by cases h)
        (.nil fun c hc ↦ (List.not_mem_nil hc).elim))
  · decide +kernel
  · decide +kernel
  · decide +kernel

end TimeSpan

end Rystemd
