import Rystemd.FieldValues
import Rystemd.Library.Partial

namespace Rystemd.Calendar

open Text Partial

namespace FieldText

def weekday (t : String) : FieldText := ⟨t, 1, 7, wdayNames⟩

def year (t : String) : FieldText := ⟨t, 1000, 9999, []⟩

def month (t : String) : FieldText := ⟨t, 1, 12, monthNames⟩

def day (t : String) : FieldText := ⟨t, 1, 31, []⟩

def hour (t : String) : FieldText := ⟨t, 0, 23, []⟩

/-- The bounds of minutes are those of seconds. -/
def minute (t : String) : FieldText := ⟨t, 0, 59, []⟩

end FieldText

/-- The field texts of a time in the order of `parse_time`; none if it fails before the first. -/
def partTexts : List String → Option Nat → Option (List FieldText)
  | [h, mi], none => some [.hour h, .minute mi]
  | [h, mi], some st => some [.hour h, .minute s!"{mi}/{st}"]
  | [h, mi, s], none => some [.hour h, .minute mi, .minute s]
  | [h, mi, s], some st => some [.hour h, .minute mi, .minute s!"{s}/{st}"]
  | _, _ => none

def timeTexts (tok : String) : Option (List FieldText) :=
  match Spec.splitTime tok with
  | .error _ => none
  | .ok (parts, step) => partTexts parts step

def dateTexts (tok : String) : Option (List FieldText) :=
  match splitWhere (· = '-') tok with
  | [y, mo, d] => some [.year y, .month mo, .day d]
  | _ => none

/-- The field texts of the tokens of time and date, up to a token that fails by its form. -/
def tokenTexts : List String → Bool → Bool → List FieldText
  | [], _, _ => []
  | tok :: toks, haveTime, haveDate =>
    if tok.toList.contains ':' then
      if haveTime then []
      else (timeTexts tok).elim [] (· ++ tokenTexts toks true haveDate)
    else if haveDate then []
    else (dateTexts tok).elim [] (· ++ tokenTexts toks haveTime true)

/-- The text of a weekday before the other tokens, and the tokens after it. -/
def firstText (toks : List String) : List FieldText × List String :=
  match toks with
  | tok :: rest => if isWeekdayToken tok then ([.weekday tok], rest) else ([], toks)
  | [] => ([], toks)

def lastText (toks : List String) : List FieldText × List String :=
  match toks.getLast? with
  | some tok =>
    if toks.length ≥ 2 && isWeekdayToken tok then ([.weekday tok], toks.dropLast) else ([], toks)
  | none => ([], toks)

/-- The texts for which `parse` calls `parse_field`, in their order, as long as that succeeds. -/
def fieldTexts (s : String) : List FieldText :=
  if (Spec.abbreviation (trim s)).isSome then []
  else
    let first := firstText (splitWhitespace (trim s))
    let last := lastText first.2
    first.1 ++ last.1 ++ tokenTexts last.2 false false

/-- One of the field texts is endless, and all texts before it are accepted. -/
inductive EndlessField : List FieldText → Prop
  | here {f : FieldText} {fs : List FieldText} : f.Endless → EndlessField (f :: fs)
  | later {f : FieldText} {fs : List FieldText} : f.Accepted → EndlessField fs →
      EndlessField (f :: fs)

namespace Spec

variable {rounds : Nat} {tok s : String} {toks : List String} {spec : Spec} {fs : List FieldText}

abbrev Parses {α : Type} (rounds : Nat) (x : ExceptT String Option α) (fs : List FieldText) : Prop :=
  Makes (FieldText.parse rounds) x fs

/-- The fields of a record are parsed one after the other. -/
theorem makes_two (f g : FieldText) (k : Field → Field → Spec) :
    Parses rounds (do
      let a ← f.parse rounds
      let b ← g.parse rounds
      return k a b) [f, g] :=
  (Makes.one f).bind fun _ ↦ (Makes.one g).bind fun _ ↦ .pure _

theorem makes_three (f g h : FieldText) (k : Field → Field → Field → Spec) :
    Parses rounds (do
      let a ← f.parse rounds
      let b ← g.parse rounds
      let c ← h.parse rounds
      return k a b c) [f, g, h] :=
  (Makes.one f).bind fun _ ↦ (Makes.one g).bind fun _ ↦ (Makes.one h).bind fun _ ↦ .pure _

/-- Either the form of the text is wrong, or its fields are parsed. -/
inductive Formed (rounds : Nat) (x : ExceptT String Option Spec) : Option (List FieldText) → Prop
  | wrong {e : String} : x = some (.error e) → Formed rounds x none
  | fields {fs : List FieldText} : Parses rounds x fs → Formed rounds x (some fs)

theorem parseParts_formed (parts : List String) (step : Option Nat) :
    Formed rounds (parseParts rounds tok spec parts step) (partTexts parts step) :=
  match parts, step with
  | [], _ => .wrong rfl
  | [_], _ => .wrong rfl
  | [h, mi], none => .fields (makes_two (.hour h) (.minute mi) _)
  | [h, mi], some st => .fields (makes_two (.hour h) (.minute s!"{mi}/{st}") _)
  | [h, mi, s], none => .fields (makes_three (.hour h) (.minute mi) (.minute s) _)
  | [h, mi, s], some st => .fields (makes_three (.hour h) (.minute mi) (.minute s!"{s}/{st}") _)
  | _ :: _ :: _ :: _ :: _, _ => .wrong rfl

theorem parseTime_formed : Formed rounds (parseTime rounds tok spec) (timeTexts tok) := by
  unfold parseTime timeTexts
  cases splitTime tok with
  | error e => exact .wrong rfl
  | ok p => exact parseParts_formed p.1 p.2

theorem parseDate_formed : Formed rounds (parseDate rounds tok spec) (dateTexts tok) := by
  unfold parseDate dateTexts
  generalize splitWhere (· = '-') tok = parts
  exact match parts with
    | [] => .wrong rfl
    | [_] => .wrong rfl
    | [_, _] => .wrong rfl
    | [y, mo, d] => .fields (makes_three (.year y) (.month mo) (.day d) _)
    | _ :: _ :: _ :: _ :: _ => .wrong rfl

/-- Where the form of the first text is wrong, those after it are not come to. -/
theorem Formed.bind_stuck {x : ExceptT String Option Spec} {texts : Option (List FieldText)}
    {k : Spec → ExceptT String Option Spec} (h : Formed rounds x texts)
    (hk : ∀ a, k a = none ↔ Stuck (FieldText.parse rounds) fs) :
    x >>= k = none ↔ Stuck (FieldText.parse rounds) (texts.elim [] (· ++ fs)) := by
  cases h with
  | wrong hx =>
    rw [hx]
    exact ended rfl
  | fields hx => exact hx.bind_stuck fun a _ ↦ hk a

theorem parseTokens_stuck {haveTime haveDate : Bool} :
    parseTokens rounds s toks haveTime haveDate spec = none ↔
      Stuck (FieldText.parse rounds) (tokenTexts toks haveTime haveDate) := by
  induction toks generalizing haveTime haveDate spec with
  | nil => exact ended rfl
  | cons tok toks ih =>
    rw [parseTokens, tokenTexts]
    by_cases ht : tok.toList.contains ':'
    · rw [if_pos ht, if_pos ht]
      cases haveTime with
      | true => exact ended rfl
      | false => exact parseTime_formed.bind_stuck fun _ ↦ ih
    · rw [if_neg ht, if_neg ht]
      cases haveDate with
      | true => exact ended rfl
      | false => exact parseDate_formed.bind_stuck fun _ ↦ ih

/-- A weekday token is parsed, and the other tokens are left over. -/
theorem parseWeekday_makes (tok : String) (k : Field → Spec) (rest : List String) :
    Parses rounds (do return (k (← parseField rounds tok 1 7 wdayNames), rest)) [.weekday tok] ∧
      ∀ r, (do return (k (← parseField rounds tok 1 7 wdayNames), rest) :
        ExceptT String Option (Spec × List String)) = some (.ok r) → r.2 = rest := by
  refine ⟨(Makes.one (FieldText.weekday tok)).bind fun _ ↦ .pure _, fun r h ↦ ?_⟩
  generalize parseField rounds tok 1 7 wdayNames = x at h
  match x with
  | none => cases h
  | some (.error e) => cases h
  | some (.ok a) =>
    cases h
    rfl

theorem parseFirst_makes : Parses rounds (parseFirst rounds toks spec) (firstText toks).1 ∧
    ∀ r, parseFirst rounds toks spec = some (.ok r) → r.2 = (firstText toks).2 := by
  have hnone : Parses rounds (pure (spec, toks) : ExceptT String Option (Spec × List String)) [] ∧
      ∀ r, (pure (spec, toks) : ExceptT String Option (Spec × List String)) = some (.ok r) →
        r.2 = toks := ⟨.pure _, fun r h ↦ by cases h; rfl⟩
  cases toks with
  | nil => exact hnone
  | cons tok rest =>
    unfold parseFirst firstText
    dsimp only
    split
    · exact parseWeekday_makes tok (fun dow ↦ { spec with dow }) rest
    · exact hnone

theorem parseLast_makes : Parses rounds (parseLast rounds toks spec) (lastText toks).1 ∧
    ∀ r, parseLast rounds toks spec = some (.ok r) → r.2 = (lastText toks).2 := by
  have hnone : Parses rounds (pure (spec, toks) : ExceptT String Option (Spec × List String)) [] ∧
      ∀ r, (pure (spec, toks) : ExceptT String Option (Spec × List String)) = some (.ok r) →
        r.2 = toks := ⟨.pure _, fun r h ↦ by cases h; rfl⟩
  unfold parseLast lastText
  cases toks.getLast? with
  | none => exact hnone
  | some tok =>
    dsimp only
    split
    · exact parseWeekday_makes tok (fun dow ↦ { spec with dow }) toks.dropLast
    · exact hnone

/-- The parser is stuck where one of its field texts is. -/
theorem parse_stuck : parse rounds s = none ↔ Stuck (FieldText.parse rounds) (fieldTexts s) := by
  unfold parse fieldTexts
  dsimp only
  by_cases hs : Text.trim s = ""
  · have habbr : ¬ (abbreviation "").isSome = true := by decide +kernel
    have hwords : splitWhitespace "" = [] := by decide +kernel
    rw [if_pos hs, hs, if_neg habbr, hwords]
    exact ended rfl
  · rw [if_neg hs]
    cases abbreviation (Text.trim s) with
    | some spec => exact ended rfl
    | none =>
      have hnone : ¬ (none : Option Spec).isSome = true := by simp
      dsimp only
      rw [if_neg hnone]
      generalize splitWhitespace (Text.trim s) = toks
      by_cases htoks : toks.isEmpty
      · rw [if_pos htoks, List.isEmpty_iff.mp htoks]
        exact ended rfl
      · rw [if_neg htoks, List.append_assoc]
        apply parseFirst_makes.1.bind_stuck
        intro first hfirst
        rw [← parseFirst_makes.2 first hfirst]
        apply parseLast_makes.1.bind_stuck
        intro last hlast
        rw [← parseLast_makes.2 last hlast]
        exact parseTokens_stuck

variable {f : FieldText} {fs : List FieldText}

theorem partTexts_max {parts : List String} {step : Option Nat} (h : partTexts parts step = some fs) :
    ∀ f ∈ fs, f.max ≤ 9999 := by
  unfold partTexts at h
  split at h <;> cases h <;> simp [FieldText.hour, FieldText.minute]

theorem timeTexts_max (h : timeTexts tok = some fs) : ∀ f ∈ fs, f.max ≤ 9999 := by
  unfold timeTexts at h
  split at h
  · cases h
  · exact partTexts_max h

theorem dateTexts_max (h : dateTexts tok = some fs) : ∀ f ∈ fs, f.max ≤ 9999 := by
  unfold dateTexts at h
  split at h
  · cases h
    simp [FieldText.year, FieldText.month, FieldText.day]
  · cases h

theorem tokenTexts_max {haveTime haveDate : Bool} (h : f ∈ tokenTexts toks haveTime haveDate) :
    f.max ≤ 9999 := by
  induction toks generalizing haveTime haveDate with
  | nil => cases h
  | cons tok toks ih =>
    rw [tokenTexts] at h
    split at h
    · split at h
      · cases h
      · cases ht : timeTexts tok with
        | none =>
          rw [ht] at h
          cases h
        | some fs =>
          rw [ht] at h
          exact (List.mem_append.mp h).elim (timeTexts_max ht f) ih
    · split at h
      · cases h
      · cases ht : dateTexts tok with
        | none =>
          rw [ht] at h
          cases h
        | some fs =>
          rw [ht] at h
          exact (List.mem_append.mp h).elim (dateTexts_max ht f) ih

theorem weekday_max (tok : String) : (FieldText.weekday tok).max ≤ 9999 := by
  change 7 ≤ 9999
  omega

theorem fieldTexts_max (h : f ∈ fieldTexts s) : f.max ≤ 9999 := by
  have hfirst : ∀ toks, f ∈ (firstText toks).1 → f.max ≤ 9999 := by
    intro toks hf
    unfold firstText at hf
    split at hf
    · split at hf
      · rw [List.mem_singleton.mp hf]
        exact weekday_max _
      · cases hf
    · cases hf
  have hlast : ∀ toks, f ∈ (lastText toks).1 → f.max ≤ 9999 := by
    intro toks hf
    unfold lastText at hf
    split at hf
    · split at hf
      · rw [List.mem_singleton.mp hf]
        exact weekday_max _
      · cases hf
    · cases hf
  unfold fieldTexts at h
  split at h
  · cases h
  · rcases List.mem_append.mp h with h | h
    · exact (List.mem_append.mp h).elim (hfirst _) (hlast _)
    · exact tokenTexts_max h

/-- An endless field text is never parsed, and the others are after as many rounds as a field can
have values. -/
theorem stuck_iff_of_rounds (hmax : ∀ f ∈ fs, f.max ≤ u32Max) :
    (EndlessField fs → Stuck (FieldText.parse rounds) fs) ∧
      ((∀ f ∈ fs, f.max + 1 ≤ rounds) → Stuck (FieldText.parse rounds) fs → EndlessField fs) := by
  constructor
  · intro h
    induction h with
    | here h => exact .here (FieldText.parse_none (hmax _ List.mem_cons_self) h)
    | @later f fs h _ ih =>
      obtain ⟨hf, hfs⟩ := List.forall_mem_cons.mp hmax
      match hp : f.parse rounds with
      | none => exact .here hp
      | some (.error e) => exact absurd h (FieldText.not_accepted_of_error hf hp)
      | some (.ok a) => exact .later ⟨a, hp⟩ (ih hfs)
  · intro hr h
    induction h with
    | @here f fs h =>
      apply EndlessField.here
      by_contra hne
      obtain ⟨r, hp⟩ := FieldText.parse_some (hmax _ List.mem_cons_self)
        (hr _ List.mem_cons_self) hne
      rw [h] at hp
      cases hp
    | later h _ ih =>
      obtain ⟨a, ha⟩ := h
      obtain ⟨hf, hfs⟩ := List.forall_mem_cons.mp hmax
      exact .later (FieldText.accepted_of_ok hf ha) (ih hfs (List.forall_mem_cons.mp hr).2)

end Spec

/-- The parser ends if and only if no field text is endless that it comes to; and then ten thousand
rounds of each loop are enough. -/
theorem calendar_parse_ends_iff (s : String) :
    ((∃ rounds, Spec.parse rounds s ≠ none) ↔ ¬ EndlessField (fieldTexts s)) ∧
      (¬ EndlessField (fieldTexts s) → Spec.parse 10000 s ≠ none) := by
  have hmax : ∀ f ∈ fieldTexts s, f.max ≤ u32Max := fun f hf ↦
    (Spec.fieldTexts_max hf).trans (by decide)
  have hends : ¬ EndlessField (fieldTexts s) → Spec.parse 10000 s ≠ none := by
    intro hne h
    apply hne
    apply (Spec.stuck_iff_of_rounds hmax).2
    · exact fun f hf ↦ Nat.succ_le_succ (Spec.fieldTexts_max hf)
    · exact Spec.parse_stuck.mp h
  refine ⟨⟨fun ⟨rounds, h⟩ hs ↦ ?_, fun h ↦ ⟨10000, hends h⟩⟩, hends⟩
  exact h (Spec.parse_stuck.mpr ((Spec.stuck_iff_of_rounds hmax).1 hs))

/-- A step of zero. -/
theorem zero_step_endless : ¬ ∃ rounds, Spec.parse rounds "*:0/0" ≠ none := by
  intro ⟨rounds, h⟩
  apply h
  have htexts : fieldTexts "*:0/0" = [.hour "*", .minute "0/0"] := by decide +kernel
  have hread : readItem (trim "0/0") 0 59 [] "0/0" = .ok ⟨0, 59, 0⟩ := by decide +kernel
  have hparts : (FieldText.minute "0/0").parts = ["0/0"] := by decide +kernel
  have hminute : (FieldText.minute "0/0").Endless := by
    refine ⟨by decide +kernel, ?_⟩
    rw [hparts]
    exact .here hread (by decide)
  rw [Spec.parse_stuck, htexts]
  have hhour : Gives ((FieldText.hour "*").parse rounds) :=
    ⟨_, FieldText.parse_wild (by decide +kernel)⟩
  exact .later hhour (.here (FieldText.parse_none (by decide) hminute))

end Rystemd.Calendar
