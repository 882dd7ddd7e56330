import Rystemd.CalendarEnds

namespace Rystemd.Calendar

open Text

namespace FieldText

/-- The range of an item and its step, as they are written. -/
def splitItem (item : String) : String × Option String :=
  match splitOnce '/' item with
  | some (rng, step) => (rng, some step)
  | none => (item, none)

/-- The first and the last value of the range: `N` stands for `N..N`, and for `N..*` before a step. A
star is the minimum of the field as the first value, and the maximum as the last one. -/
def writtenRange (f : FieldText) (rng : String) (stepped : Bool) : Option (Nat × Nat) :=
  let bound (t : String) (star : Nat) := (resolve (trim t) star f.names).toOption
  match splitOnceStr ".." rng with
  | some (l, h) => (bound l f.min).bind fun a ↦ (bound h f.max).map fun b ↦ (a, b)
  | none => (bound rng f.min).map fun a ↦ (a, if stepped then f.max else a)

/-- The item as it is written: valid bounds in ascending order, and a step that is a number from 1
on, or none. -/
def written (f : FieldText) (item : String) : Option Stride :=
  let p := splitItem item
  if item = "" then none
  else (f.writtenRange p.1 p.2.isSome).bind fun (a, b) ↦
    (p.2.elim (some 1) parseNumber).bind fun step ↦
      if a ≤ b ∧ 1 ≤ step then some ⟨a, b, step⟩ else none

/-- The values that the text denotes, as it is written. -/
def Law (f : FieldText) (v : Nat) : Prop :=
  ∃ item ∈ f.parts, ∃ s, f.written item = some s ∧ s.Reaches f.min f.max v

/-- The text is an expression, and one of its values is one of the field. -/
def Lawful (f : FieldText) : Prop :=
  f.Wild ∨ (∀ item ∈ f.parts, (f.written item).isSome) ∧ ∃ v, f.Law v

/-- The text is accepted where it is an expression with a value, and then for the values that it
denotes; it is refused elsewhere. -/
structure ParsesRight (f : FieldText) : Prop where
  accepts : f.Lawful → ∃ rounds field, f.parse rounds = some (.ok field) ∧
    (f.Wild → field = .any) ∧ (¬ f.Wild → ∀ v, field.matches_ v ↔ f.Law v)
  refuses : ¬ f.Lawful → ∃ rounds e, f.parse rounds = some (.error e)

variable {f : FieldText} {item : String} {s : Stride} {field : Field} {rounds : Nat}

theorem matches_ofValues (vals : List Nat) (v : Nat) : (Field.ofValues vals).matches_ v ↔ v ∈ vals := by
  simp [Field.ofValues, Field.matches_, List.mem_dedup, List.mem_insertionSort]

theorem splitStep_eq (item : String) : (splitStep item).getD (item, none) =
    ((splitItem item).1, (splitItem item).2.bind parseNumber) := by
  unfold splitStep splitItem
  cases splitOnce '/' item with
  | none => rfl
  | some p => rfl

theorem readRange_eq (rng : String) (stepped : Bool) :
    (readRange f.min f.max f.names rng stepped).toOption = f.writtenRange rng stepped := by
  unfold readRange writtenRange
  cases splitOnceStr ".." rng with
  | none => dsimp only; cases resolve (trim rng) f.min f.names <;> rfl
  | some p =>
    dsimp only
    cases resolve (trim p.1) f.min f.names with
    | error e => rfl
    | ok a => cases resolve (trim p.2) f.max f.names <;> rfl

/-- An item that is written well is read as it is written. -/
theorem read_of_written (h : f.written item = some s) : f.read item = .ok s := by
  unfold written at h
  dsimp only at h
  split at h
  · cases h
  · next hitem =>
    obtain ⟨⟨a, b⟩, hr, h⟩ := Option.bind_eq_some_iff.mp h
    obtain ⟨step, hstep, h⟩ := Option.bind_eq_some_iff.mp h
    split at h
    · next hle =>
      cases h
      have hpart : (splitItem item).2.isSome = ((splitItem item).2.bind parseNumber).isSome ∧
          ((splitItem item).2.bind parseNumber).getD 1 = step := by
        cases ht : (splitItem item).2 with
        | none =>
          rw [ht] at hstep
          cases hstep
          exact ⟨rfl, rfl⟩
        | some t =>
          rw [ht] at hstep
          rw [Option.bind_some, show parseNumber t = some step from hstep]
          exact ⟨rfl, rfl⟩
      rw [hpart.1, ← readRange_eq] at hr
      unfold read readItem
      rw [if_neg hitem, splitStep_eq]
      dsimp only
      cases hrange : readRange f.min f.max f.names (splitItem item).1
          ((splitItem item).2.bind parseNumber).isSome with
      | error e =>
        rw [hrange] at hr
        cases hr
      | ok r =>
        rw [hrange] at hr
        cases hr
        rw [hpart.2]
        exact congrArg Except.ok (if_neg (Nat.not_lt.mpr hle.1))
    · cases h

/-- An item that cannot be read is not written well. -/
theorem written_of_error {e : String} (h : f.read item = .error e) : f.written item = none := by
  cases hw : f.written item with
  | none => rfl
  | some s =>
    rw [read_of_written hw] at h
    cases h

/-- What is written well is what is read. -/
theorem law_iff_denotes (h : ∀ item ∈ f.parts, (f.written item).isSome) (v : Nat) :
    f.Law v ↔ f.Denotes v := by
  constructor
  · rintro ⟨item, hi, s, hs, hv⟩
    exact ⟨item, hi, s, read_of_written hs, hv⟩
  · rintro ⟨item, hi, s, hs, hv⟩
    obtain ⟨s', hs'⟩ := Option.isSome_iff_exists.mp (h item hi)
    rw [read_of_written hs'] at hs
    cases hs
    exact ⟨item, hi, _, hs', hv⟩

theorem parsesRight_of_wild (h : f.Wild) : f.ParsesRight where
  accepts _ := ⟨0, .any, parse_wild h, fun _ ↦ rfl, fun hn ↦ absurd h hn⟩
  refuses hn := absurd (.inl h) hn

/-- A text that is refused is parsed right if that is what should be. -/
theorem parsesRight_of_error {e : String} (h : f.parse rounds = some (.error e))
    (hn : ¬ f.Lawful) : f.ParsesRight where
  accepts hl := absurd hl hn
  refuses _ := ⟨rounds, e, h⟩

/-- Where all items are written well the loops end with what is written. -/
theorem parsesRight_of_written (hmax : f.max ≤ u32Max) (hend : ¬ f.Endless) (hw : ¬ f.Wild)
    (h : ∀ item ∈ f.parts, (f.written item).isSome) : f.ParsesRight := by
  obtain ⟨r, hr⟩ := parse_some hmax le_rfl hend
  have hread : ∀ item ∈ f.parts, ∃ s, f.read item = .ok s := fun item hi ↦ by
    obtain ⟨s, hs⟩ := Option.isSome_iff_exists.mp (h item hi)
    exact ⟨s, read_of_written hs⟩
  cases r with
  | error e =>
    apply parsesRight_of_error hr
    rintro (hl | ⟨-, v, hv⟩)
    · exact hw hl
    · exact not_accepted_of_error hmax hr (.inr ⟨hread, v, (law_iff_denotes h v).mp hv⟩)
  | ok field =>
    obtain ⟨-, vals, hne, rfl, hmem⟩ := parse_ok hmax hw hr
    have hlaw : ∀ v, v ∈ vals ↔ f.Law v := fun v ↦ (hmem v).trans (law_iff_denotes h v).symm
    refine ⟨fun _ ↦ ⟨_, _, hr, fun hw' ↦ absurd hw' hw, fun _ v ↦ ?_⟩, fun hn ↦ ?_⟩
    · exact (matches_ofValues vals v).trans (hlaw v)
    · obtain ⟨v, hv⟩ := List.exists_mem_of_ne_nil vals hne
      exact absurd (.inr ⟨h, v, (hlaw v).mp hv⟩) hn

/-- Exactly these texts are parsed right: no item is endless, and the text is a star, or some item
cannot be read, or all items are written well, or what is read has no value of the field. -/
theorem parses_right_iff (f : FieldText) (hmax : f.max ≤ u32Max) :
    f.ParsesRight ↔ ¬ f.Endless ∧ (f.Wild ∨ (∃ item ∈ f.parts, ∃ e, f.read item = .error e) ∨
      (∀ item ∈ f.parts, (f.written item).isSome) ∨ ∀ x, ¬ f.Denotes x) := by
  constructor
  · intro h
    have hends : ∃ rounds r, f.parse rounds = some r := by
      by_cases hl : f.Lawful
      · obtain ⟨rounds, field, hr, -⟩ := h.accepts hl
        exact ⟨rounds, _, hr⟩
      · obtain ⟨rounds, e, hr⟩ := h.refuses hl
        exact ⟨rounds, _, hr⟩
    refine ⟨fun hend ↦ ?_, ?_⟩
    · obtain ⟨rounds, r, hr⟩ := hends
      rw [parse_none hmax hend] at hr
      cases hr
    by_contra hnot
    obtain ⟨hw, hread, hwritten, hx⟩ := by simpa only [not_or] using hnot
    have hread : ∀ item ∈ f.parts, ∃ s, f.read item = .ok s := fun item hi ↦ by
      cases hs : f.read item with
      | error e => exact absurd ⟨item, hi, e, hs⟩ hread
      | ok s => exact ⟨s, rfl⟩
    obtain ⟨rounds, e, hr⟩ := h.refuses fun hl ↦ hwritten (hl.resolve_left hw).1
    exact not_accepted_of_error hmax hr (.inr ⟨hread, not_forall_not.mp hx⟩)
  · rintro ⟨hend, hcase⟩
    obtain ⟨r, hr⟩ := parse_some hmax le_rfl hend
    by_cases hw : f.Wild
    · exact parsesRight_of_wild hw
    by_cases hwritten : ∀ item ∈ f.parts, (f.written item).isSome
    · exact parsesRight_of_written hmax hend hw hwritten
    -- The text should be refused: an item is not written well.
    have hunlawful : ¬ f.Lawful := fun hl ↦ hwritten (hl.resolve_left hw).1
    cases r with
    | error e => exact parsesRight_of_error hr hunlawful
    | ok field =>
      obtain ⟨hread, x, hx⟩ := (accepted_of_ok hmax hr).resolve_left hw
      rcases hcase with h | ⟨item, hi, e, he⟩ | h | h
      · exact absurd h hw
      · obtain ⟨s, hs⟩ := hread item hi
        rw [hs] at he
        cases he
      · exact absurd h hwritten
      · exact absurd hx (h x)

/-- A step that is no number is ignored. -/
theorem malformed_step_accepted : ¬ (FieldText.day "5/x").ParsesRight := by
  intro h
  have hparts : (FieldText.day "5/x").parts = ["5/x"] := by decide +kernel
  have hwild : ¬ (FieldText.day "5/x").Wild := by decide +kernel
  have hread : (FieldText.day "5/x").read "5/x" = .ok ⟨5, 5, 1⟩ := by decide +kernel
  have hwritten : (FieldText.day "5/x").written "5/x" = none := by decide +kernel
  obtain ⟨rounds, e, hr⟩ := h.refuses (by
    rintro (hw | ⟨hall, -⟩)
    · exact hwild hw
    · rw [hparts] at hall
      have := hall "5/x" List.mem_cons_self
      rw [hwritten] at this
      cases this)
  apply not_accepted_of_error (by decide) hr
  refine .inr ⟨?_, 5, "5/x", by rw [hparts]; exact List.mem_cons_self, _, hread, ?_⟩
  · intro item hi
    rw [hparts, List.mem_singleton] at hi
    rw [hi]
    exact ⟨_, hread⟩
  · exact ⟨⟨0, by decide⟩, by decide⟩

/-- Every fifth day from the first on. -/
theorem every_fifth_day :
    (FieldText.day "1/5").max ≤ u32Max ∧ (FieldText.day "1/5").ParsesRight := by
  have hparts : (FieldText.day "1/5").parts = ["1/5"] := by decide +kernel
  have hread : (FieldText.day "1/5").read "1/5" = .ok ⟨1, 31, 5⟩ := by decide +kernel
  have hwritten : ((FieldText.day "1/5").written "1/5").isSome := by decide +kernel
  refine ⟨by decide, (parses_right_iff _ (by decide)).mpr ⟨?_, .inr (.inr (.inl ?_))⟩⟩
  · rintro ⟨-, hend⟩
    rw [hparts] at hend
    cases hend with
    | here hs hend =>
      cases hread.symm.trans hs
      revert hend
      decide
    | later _ hend => cases hend
  · intro item hi
    rw [hparts, List.mem_singleton] at hi
    rw [hi]
    exact hwritten

end FieldText

end Rystemd.Calendar
