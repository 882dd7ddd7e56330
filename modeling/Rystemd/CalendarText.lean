import Mathlib.Data.List.Dedup
import Mathlib.Data.List.Sort
import Rystemd.Calendar
import Rystemd.Library.Text

namespace Rystemd.Calendar

open Text

abbrev Names := List (String × Nat)

def wdayNames : Names :=
  [("mon", 1), ("tue", 2), ("wed", 3), ("thu", 4), ("fri", 5), ("sat", 6), ("sun", 7)]

def monthNames : Names :=
  [("jan", 1), ("feb", 2), ("mar", 3), ("apr", 4), ("may", 5), ("jun", 6), ("jul", 7), ("aug", 8),
    ("sep", 9), ("oct", 10), ("nov", 11), ("dec", 12)]

def resolveName (tok : String) (names : Names) : Option Nat :=
  let low := toAsciiLowercase tok
  (names.find? fun n ↦ low = n.1 || low = n.1 ++ "day").map Prod.snd

def isWeekdayToken (tok : String) : Bool :=
  if tok.toList.contains ':' || tok.toList.contains '-' then false
  else if tok = "*" || tok = "?" then false
  else (splitWhere (fun c ↦ c = '/' || c = ',' || c = '.' || c = '*') tok).any fun p ↦
    p ≠ "" && (resolveName p wdayNames).isSome

/-- The greatest number of 32 bits. -/
def u32Max : Nat := 4294967295

def saturatingAdd (a b : Nat) : Nat := min (a + b) u32Max

def parseNumber (s : String) : Option Nat := (parseU32 s).map UInt32.toNat

def resolve (tok : String) (default : Nat) (names : Names) : Except String Nat :=
  if tok = "*" then .ok default
  else match resolveName tok names with
    | some v => .ok v
    | none =>
      match parseNumber tok with
      | some v => .ok v
      | none => .error s!"invalid value `{tok}`"

/-- A step that is not a number is taken for none. -/
def splitStep (item : String) : Option (String × Option Nat) :=
  (splitOnce '/' item).map fun (a, b) ↦ (a, parseNumber b)

/-- The values that an item of a list runs through: the first, the last and the step. -/
structure Stride where
  lo : Nat
  hi : Nat
  step : Nat
  deriving DecidableEq

/-- The two bounds of an item, as they are written. A bare value is both of them, and with a step the
second one is the maximum of the field. -/
def readRange (min max : Nat) (names : Names) (rng : String) (stepped : Bool) :
    Except String (Nat × Nat) :=
  match splitOnceStr ".." rng with
  | some (l, h) => do
    let lo ← resolve (trim l) min names
    let hi ← resolve (trim h) max names
    return (lo, hi)
  | none => do
    let lo ← resolve (trim rng) min names
    return (lo, if stepped then max else lo)

/-- What `parse_field` reads of one item, before it collects the values. -/
def readItem (tok : String) (min max : Nat) (names : Names) (item : String) :
    Except String Stride :=
  if item = "" then .error s!"empty list item in `{tok}`"
  else do
    let (rng, step) := (splitStep item).getD (item, none)
    let (lo, hi) ← readRange min max names rng step.isSome
    return if lo > hi then ⟨hi, lo, step.getD 1⟩ else ⟨lo, hi, step.getD 1⟩

/-- The loop of `parse_field` over the values of an item. It is `none` while the loop still runs
after so many rounds. -/
def collect (min max : Nat) (s : Stride) : Nat → Nat → List Nat → Option (List Nat)
  | 0, v, vals => if v ≤ s.hi && v ≤ max then none else some vals
  | rounds + 1, v, vals =>
    if v ≤ s.hi && v ≤ max then
      collect min max s rounds (saturatingAdd v s.step) (if v ≥ min then vals ++ [v] else vals)
    else some vals

/-- The loop of `parse_field` over the items. -/
def collectItems (rounds : Nat) (tok : String) (min max : Nat) (names : Names) :
    List String → List Nat → ExceptT String Option (List Nat)
  | [], vals => pure vals
  | item :: items, vals => do
    let s ← ExceptT.mk (some (readItem tok min max names item))
    let vals ← ExceptT.mk ((collect min max s rounds s.lo vals).map .ok)
    collectItems rounds tok min max names items vals

/-- The values, sorted and without duplicates. -/
def Field.ofValues (vals : List Nat) : Field :=
  .set (vals.insertionSort (· ≤ ·)).dedup <| by
    have hle : (vals.insertionSort (· ≤ ·)).dedup.Pairwise (· ≤ ·) :=
      (List.pairwise_insertionSort (· ≤ ·) vals).sublist (List.dedup_sublist _)
    exact hle.imp₂ (fun _ _ hle hne ↦ lt_of_le_of_ne hle hne) (List.nodup_dedup _)

def itemsOf (tok : String) : List String := (splitWhere (· = ',') tok).map trim

def parseField (rounds : Nat) (tok : String) (min max : Nat) (names : Names) :
    ExceptT String Option Field := do
  let tok := trim tok
  if tok = "*" || tok = "?" then return .any
  let vals ← collectItems rounds tok min max names (itemsOf tok) []
  if vals.isEmpty then throw s!"field `{tok}` has no valid values in [{min}..{max}]"
  return .ofValues vals

/-- The one value 0. -/
def Field.zero : Field := .ofValues [0]

namespace Spec

def atMidnight (spec : Spec) : Spec :=
  { spec with hour := .zero, minute := .zero, second := .zero }

def abbreviation (s : String) : Option Spec :=
  match toAsciiLowercase s with
  | "minutely" => some { second := .zero }
  | "hourly" => some { minute := .zero, second := .zero }
  | "daily" => some (atMidnight {})
  | "weekly" => some (atMidnight { dow := .ofValues [1] })
  | "monthly" => some (atMidnight { day := .ofValues [1] })
  | "quarterly" => some (atMidnight { month := .ofValues [1, 4, 7, 10], day := .ofValues [1] })
  | "semi-annually" => some (atMidnight { month := .ofValues [1, 7], day := .ofValues [1] })
  | "annually" | "yearly" => some (atMidnight { month := .ofValues [1], day := .ofValues [1] })
  | _ => none

/-- The parts of a time, and the step on the last of them. -/
def splitTime (tok : String) : Except String (List String × Option Nat) :=
  match splitOnce '/' tok with
  | some (base, st) =>
    match parseNumber st with
    | some st => .ok (splitWhere (· = ':') base, some st)
    | none => .error s!"bad step in `{tok}`"
  | none => .ok (splitWhere (· = ':') tok, none)

/-- `HH:MM` or `HH:MM:SS`. -/
def parseParts (rounds : Nat) (tok : String) (spec : Spec) :
    List String → Option Nat → ExceptT String Option Spec
  | [h, mi], none => do
    let hour ← parseField rounds h 0 23 []
    let minute ← parseField rounds mi 0 59 []
    return { spec with hour, minute, second := .zero }
  | [h, mi], some st => do
    let hour ← parseField rounds h 0 23 []
    let minute ← parseField rounds s!"{mi}/{st}" 0 59 []
    return { spec with hour, minute, second := .zero }
  | [h, mi, s], none => do
    let hour ← parseField rounds h 0 23 []
    let minute ← parseField rounds mi 0 59 []
    let second ← parseField rounds s 0 59 []
    return { spec with hour, minute, second }
  | [h, mi, s], some st => do
    let hour ← parseField rounds h 0 23 []
    let minute ← parseField rounds mi 0 59 []
    let second ← parseField rounds s!"{s}/{st}" 0 59 []
    return { spec with hour, minute, second }
  | _, _ => throw s!"bad time `{tok}`"

def parseTime (rounds : Nat) (tok : String) (spec : Spec) : ExceptT String Option Spec := do
  let (parts, step) ← ExceptT.mk (some (splitTime tok))
  parseParts rounds tok spec parts step

def parseDate (rounds : Nat) (tok : String) (spec : Spec) : ExceptT String Option Spec := do
  match splitWhere (· = '-') tok with
  | [y, mo, d] =>
    let year ← parseField rounds y 1000 9999 []
    let month ← parseField rounds mo 1 12 monthNames
    let day ← parseField rounds d 1 31 []
    return { spec with year, month, day }
  | _ => throw s!"bad date `{tok}`"

/-- The loop of `parse` over the tokens of time and date. Without a time it is midnight. -/
def parseTokens (rounds : Nat) (s : String) :
    List String → Bool → Bool → Spec → ExceptT String Option Spec
  | [], haveTime, _, spec => pure (if haveTime then spec else spec.atMidnight)
  | tok :: toks, haveTime, haveDate, spec => do
    if tok.toList.contains ':' then
      if haveTime then throw s!"multiple time components in `{s}`"
      let spec ← parseTime rounds tok spec
      parseTokens rounds s toks true haveDate spec
    else
      if haveDate then throw s!"multiple date components in `{s}`"
      let spec ← parseDate rounds tok spec
      parseTokens rounds s toks haveTime true spec

/-- The weekday before the other tokens, if there is one, and the tokens after it. -/
def parseFirst (rounds : Nat) (toks : List String) (spec : Spec) :
    ExceptT String Option (Spec × List String) :=
  match toks with
  | tok :: rest =>
    if isWeekdayToken tok then do
      let dow ← parseField rounds tok 1 7 wdayNames
      return ({ spec with dow }, rest)
    else pure (spec, toks)
  | [] => pure (spec, toks)

/-- The weekday after the other tokens, if there is one, and the tokens before it. -/
def parseLast (rounds : Nat) (toks : List String) (spec : Spec) :
    ExceptT String Option (Spec × List String) :=
  match toks.getLast? with
  | some tok =>
    if toks.length ≥ 2 && isWeekdayToken tok then do
      let dow ← parseField rounds tok 1 7 wdayNames
      return ({ spec with dow }, toks.dropLast)
    else pure (spec, toks)
  | none => pure (spec, toks)

/-- It is `none` while some loop over the values of an item still runs after so many rounds. -/
def parse (rounds : Nat) (s : String) : ExceptT String Option Spec := do
  let s := trim s
  if s = "" then throw "empty calendar expression"
  match abbreviation s with
  | some spec => return spec
  | none =>
    let toks := splitWhitespace s
    if toks.isEmpty then throw s!"empty calendar expression `{s}`"
    let (spec, toks) ← parseFirst rounds toks {}
    let (spec, toks) ← parseLast rounds toks spec
    parseTokens rounds s toks false false spec

end Spec

end Rystemd.Calendar
