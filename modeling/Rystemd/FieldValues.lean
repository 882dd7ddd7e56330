import Rystemd.CalendarText

namespace Rystemd.Calendar

/-- The item runs through this value, and the field takes it. -/
def Stride.Reaches (s : Stride) (min max x : Nat) : Prop :=
  (∃ k, x = s.lo + k * s.step) ∧ x ≤ s.hi ∧ min ≤ x ∧ x ≤ max

/-- The loop over the values of the item does not get on: the step is zero, or both ends are the
greatest number that there is, at which the addition stands still. -/
def Stride.Endless (s : Stride) (max : Nat) : Prop :=
  s.lo ≤ s.hi ∧ s.lo ≤ max ∧ (s.step = 0 ∨ u32Max ≤ s.hi ∧ u32Max ≤ max)

instance (s : Stride) (max : Nat) : Decidable (s.Endless max) := inferInstanceAs (Decidable (_ ∧ _))

/-- A text for `parse_field` with the bounds and the names of its field. -/
structure FieldText where
  text : String
  min : Nat
  max : Nat
  names : Names
  deriving DecidableEq

variable {s : Stride} {min max v x rounds : Nat} {vals vals' l : List Nat} {item tok e : String}
  {names : Names} {items : List String}

section Collect

theorem collect_end (h : ¬ (v ≤ s.hi ∧ v ≤ max)) : collect min max s rounds v vals = some vals := by
  have h : ¬ (v ≤ s.hi && v ≤ max) = true := by simpa using h
  cases rounds with
  | zero => rw [collect, if_neg h]
  | succ n => rw [collect, if_neg h]

theorem collect_step (h : v ≤ s.hi ∧ v ≤ max) : collect min max s (rounds + 1) v vals =
    collect min max s rounds (saturatingAdd v s.step) (if v ≥ min then vals ++ [v] else vals) := by
  rw [collect, if_pos (by simpa using h)]

/-- An endless item is still being collected after any number of rounds. -/
theorem collect_endless (hmax : max ≤ u32Max) (hv : v ≤ s.hi ∧ v ≤ max)
    (h : s.step = 0 ∨ u32Max ≤ s.hi ∧ u32Max ≤ max) : collect min max s rounds v vals = none := by
  induction rounds generalizing v vals with
  | zero => rw [collect, if_pos (by simpa using hv)]
  | succ n ih =>
    rw [collect_step hv]
    apply ih
    unfold saturatingAdd
    rcases h with h | h
    · rw [h]
      omega
    · omega

/-- Where an item is not endless the loop ends after as many rounds as the field has values. -/
theorem collect_isSome (h : s.step ≠ 0 ∧ (s.hi < u32Max ∨ max < u32Max)) (hmax : max ≤ u32Max)
    (hr : max + 1 - v ≤ rounds) : (collect min max s rounds v vals).isSome := by
  induction rounds generalizing v vals with
  | zero => rw [collect_end (by omega)]; rfl
  | succ n ih =>
    by_cases hv : v ≤ s.hi ∧ v ≤ max
    · rw [collect_step hv]
      apply ih
      unfold saturatingAdd
      omega
    · rw [collect_end hv]
      rfl

theorem stride_succ {step : Nat} :
    (∃ k, x = v + k * step) ↔ x = v ∨ ∃ k, x = v + step + k * step := by
  constructor
  · rintro ⟨k, rfl⟩
    cases k with
    | zero => exact .inl (by simp)
    | succ k => exact .inr ⟨k, by rw [Nat.succ_mul]; omega⟩
  · rintro (rfl | ⟨k, rfl⟩)
    · exact ⟨0, by simp⟩
    · exact ⟨k + 1, by rw [Nat.succ_mul]; omega⟩

/-- The values from `v` on are the same whether or not the addition stands still. -/
theorem stride_saturating (h : s.hi < u32Max ∨ max < u32Max) (hx : x ≤ s.hi ∧ x ≤ max) :
    (∃ k, x = saturatingAdd v s.step + k * s.step) ↔ ∃ k, x = v + s.step + k * s.step := by
  by_cases hv : v + s.step ≤ u32Max
  · rw [saturatingAdd, Nat.min_eq_left hv]
  · rw [saturatingAdd, Nat.min_eq_right (by omega)]
    constructor
    · rintro ⟨k, rfl⟩
      omega
    · rintro ⟨k, rfl⟩
      omega

/-- What the loop adds to the values, if it ends. -/
theorem collect_values (h : s.hi < u32Max ∨ max < u32Max)
    (hc : collect min max s rounds v vals = some vals') :
    ∃ l, vals' = vals ++ l ∧
      ∀ x, x ∈ l ↔ (∃ k, x = v + k * s.step) ∧ x ≤ s.hi ∧ min ≤ x ∧ x ≤ max := by
  induction rounds generalizing v vals with
  | zero =>
    by_cases hv : v ≤ s.hi ∧ v ≤ max
    · rw [collect, if_pos (by simpa using hv)] at hc
      cases hc
    · rw [collect_end hv] at hc
      exact ⟨[], by simpa using hc.symm, fun x ↦ by simp; omega⟩
  | succ n ih =>
    by_cases hv : v ≤ s.hi ∧ v ≤ max
    · rw [collect_step hv] at hc
      obtain ⟨l, rfl, hl⟩ := ih hc
      refine ⟨(if v ≥ min then [v] else []) ++ l, ?_, fun x ↦ ?_⟩
      · split
        · rw [List.append_assoc]
        · rfl
      · have hhead : x ∈ (if v ≥ min then [v] else []) ↔ x = v ∧ min ≤ x := by
          split <;> simp <;> omega
        rw [List.mem_append, hhead, hl, stride_succ (v := v)]
        constructor
        · rintro (⟨rfl, hm⟩ | ⟨hk, hhi, hm, hmax⟩)
          · exact ⟨.inl rfl, hv.1, hm, hv.2⟩
          · exact ⟨.inr ((stride_saturating h ⟨hhi, hmax⟩).mp hk), hhi, hm, hmax⟩
        · rintro ⟨rfl | hk, hhi, hm, hmax⟩
          · exact .inl ⟨rfl, hm⟩
          · exact .inr ⟨(stride_saturating h ⟨hhi, hmax⟩).mpr hk, hhi, hm, hmax⟩
    · rw [collect_end hv] at hc
      exact ⟨[], by simpa using hc.symm, fun x ↦ by simp; omega⟩

theorem collect_none (hmax : max ≤ u32Max) (h : s.Endless max) :
    collect min max s rounds s.lo vals = none :=
  collect_endless hmax ⟨h.1, h.2.1⟩ h.2.2

theorem collect_some (vals : List Nat) (hmax : max ≤ u32Max) (h : ¬ s.Endless max) (hr : max + 1 ≤ rounds) :
    (collect min max s rounds s.lo vals).isSome := by
  by_cases hv : s.lo ≤ s.hi ∧ s.lo ≤ max
  · have h : s.step ≠ 0 ∧ (s.hi < u32Max ∨ max < u32Max) := by
      unfold Stride.Endless at h
      omega
    exact collect_isSome h hmax (by omega)
  · rw [collect_end hv]
    rfl

theorem collect_reaches (hmax : max ≤ u32Max)
    (hc : collect min max s rounds s.lo vals = some vals') :
    ∃ l, vals' = vals ++ l ∧ ∀ x, x ∈ l ↔ s.Reaches min max x := by
  by_cases h : s.hi < u32Max ∨ max < u32Max
  · exact collect_values h hc
  · by_cases hv : s.lo ≤ s.hi ∧ s.lo ≤ max
    · rw [collect_endless hmax hv (.inr (by omega))] at hc
      cases hc
    · rw [collect_end hv] at hc
      refine ⟨[], by simpa using hc.symm, fun x ↦ ?_⟩
      simp only [List.not_mem_nil, false_iff]
      rintro ⟨⟨k, rfl⟩, hhi, -, hle⟩
      omega

end Collect

section Items

/-- One of the items is endless, and all items before it can be read. -/
inductive EndlessIn (tok : String) (min max : Nat) (names : Names) : List String → Prop
  | here {item : String} {items : List String} {s : Stride} :
      readItem tok min max names item = .ok s → s.Endless max →
        EndlessIn tok min max names (item :: items)
  | later {item : String} {items : List String} {s : Stride} :
      readItem tok min max names item = .ok s → EndlessIn tok min max names items →
        EndlessIn tok min max names (item :: items)

theorem collectItems_cons : collectItems rounds tok min max names (item :: items) vals =
    match readItem tok min max names item with
    | .error e => throw e
    | .ok s =>
      match collect min max s rounds s.lo vals with
      | none => none
      | some vals => collectItems rounds tok min max names items vals := by
  rw [collectItems]
  cases readItem tok min max names item with
  | error e => rfl
  | ok s =>
    change (ExceptT.mk (Option.map Except.ok (collect min max s rounds s.lo vals)) >>=
      fun vals ↦ collectItems rounds tok min max names items vals) = _
    dsimp only
    cases collect min max s rounds s.lo vals with
    | none => rfl
    | some vals => rfl

theorem collectItems_none (hmax : max ≤ u32Max) (h : EndlessIn tok min max names items) :
    collectItems rounds tok min max names items vals = none := by
  induction h generalizing vals with
  | here hs he =>
    rw [collectItems_cons, hs]
    dsimp only
    rw [collect_none hmax he]
  | later hs _ ih =>
    rw [collectItems_cons, hs]
    dsimp only
    split
    · rfl
    · exact ih

theorem collectItems_some (hmax : max ≤ u32Max) (hr : max + 1 ≤ rounds)
    (h : ¬ EndlessIn tok min max names items) :
    ∃ r, collectItems rounds tok min max names items vals = some r := by
  induction items generalizing vals with
  | nil => exact ⟨_, rfl⟩
  | cons item items ih =>
    rw [collectItems_cons]
    cases hs : readItem tok min max names item with
    | error e => exact ⟨_, rfl⟩
    | ok s =>
      have hrest : ¬ EndlessIn tok min max names items := fun h' ↦ h (.later hs h')
      have hone : ¬ s.Endless max := fun h' ↦ h (.here hs h')
      obtain ⟨vals', hc⟩ := Option.isSome_iff_exists.mp (collect_some vals hmax hone hr)
      dsimp only
      rw [hc]
      exact ih hrest

/-- The values that were collected when the loop over the items is done. -/
theorem collectItems_ok (hmax : max ≤ u32Max)
    (h : collectItems rounds tok min max names items vals = some (.ok vals')) :
    (∀ item ∈ items, ∃ s, readItem tok min max names item = .ok s) ∧
      ∃ l, vals' = vals ++ l ∧ ∀ x, x ∈ l ↔
        ∃ item ∈ items, ∃ s, readItem tok min max names item = .ok s ∧ s.Reaches min max x := by
  induction items generalizing vals with
  | nil =>
    cases h
    exact ⟨by simp, [], by simp, by simp⟩
  | cons item items ih =>
    rw [collectItems_cons] at h
    cases hs : readItem tok min max names item with
    | error e =>
      rw [hs] at h
      cases h
    | ok s =>
      rw [hs] at h
      dsimp only at h
      cases hc : collect min max s rounds s.lo vals with
      | none =>
        rw [hc] at h
        cases h
      | some vals₁ =>
        rw [hc] at h
        obtain ⟨l₁, rfl, h₁⟩ := collect_reaches hmax hc
        obtain ⟨hread, l₂, rfl, h₂⟩ := ih h
        refine ⟨List.forall_mem_cons.mpr ⟨⟨s, hs⟩, hread⟩, l₁ ++ l₂, List.append_assoc .., ?_⟩
        intro x
        rw [List.mem_append, h₁, h₂, List.exists_mem_cons_iff, hs]
        simp

theorem collectItems_error (h : collectItems rounds tok min max names items vals = some (.error e)) :
    ∃ item ∈ items, ∃ e, readItem tok min max names item = .error e := by
  induction items generalizing vals with
  | nil => cases h
  | cons item items ih =>
    rw [collectItems_cons] at h
    cases hs : readItem tok min max names item with
    | error e => exact ⟨item, List.mem_cons_self, e, hs⟩
    | ok s =>
      rw [hs] at h
      dsimp only at h
      split at h
      · cases h
      · obtain ⟨item', hi, he⟩ := ih h
        exact ⟨item', List.mem_cons_of_mem _ hi, he⟩

end Items

namespace FieldText

variable {f : FieldText} {field : Field}

def parse (rounds : Nat) (f : FieldText) : ExceptT String Option Field :=
  parseField rounds f.text f.min f.max f.names

def Wild (f : FieldText) : Prop := Text.trim f.text = "*" ∨ Text.trim f.text = "?"

instance : DecidablePred Wild := fun _ ↦ inferInstanceAs (Decidable (_ ∨ _))

def parts (f : FieldText) : List String := itemsOf (Text.trim f.text)

def read (f : FieldText) (item : String) : Except String Stride :=
  readItem (Text.trim f.text) f.min f.max f.names item

/-- An item is endless, and all items before it can be read. -/
def Endless (f : FieldText) : Prop :=
  ¬ f.Wild ∧ EndlessIn (Text.trim f.text) f.min f.max f.names f.parts

/-- Some item reaches this value. -/
def Denotes (f : FieldText) (x : Nat) : Prop :=
  ∃ item ∈ f.parts, ∃ s, f.read item = .ok s ∧ s.Reaches f.min f.max x

/-- All items can be read, and the field takes a value of one of them. -/
def Accepted (f : FieldText) : Prop :=
  f.Wild ∨ (∀ item ∈ f.parts, ∃ s, f.read item = .ok s) ∧ ∃ x, f.Denotes x

theorem parse_wild (h : f.Wild) : f.parse rounds = some (.ok .any) := by
  unfold parse parseField
  dsimp only
  rw [if_pos (by simpa [Wild] using h)]
  rfl

/-- What `parse_field` makes of the values that it collected. -/
def finish (f : FieldText) (vals : List Nat) : Except String Field :=
  if vals.isEmpty then
    .error s!"field `{Text.trim f.text}` has no valid values in [{f.min}..{f.max}]"
  else .ok (.ofValues vals)

theorem parse_items (h : ¬ f.Wild) : f.parse rounds =
    match collectItems rounds (Text.trim f.text) f.min f.max f.names f.parts [] with
    | none => none
    | some (.error e) => some (.error e)
    | some (.ok vals) => some (f.finish vals) := by
  unfold parse parseField
  dsimp only
  rw [if_neg (by simpa [Wild] using h)]
  change (collectItems rounds (Text.trim f.text) f.min f.max f.names f.parts [] >>= _) = _
  generalize collectItems rounds (Text.trim f.text) f.min f.max f.names f.parts [] = r
  match r with
  | none => rfl
  | some (.error e) => rfl
  | some (.ok vals) =>
    change (if vals.isEmpty then _ else _) = some (f.finish vals)
    unfold finish
    by_cases hv : vals.isEmpty
    · rw [if_pos hv, if_pos hv]
      rfl
    · rw [if_neg hv, if_neg hv]
      rfl

theorem parse_none (hmax : f.max ≤ u32Max) (h : f.Endless) : f.parse rounds = none := by
  obtain ⟨hw, he⟩ := h
  rw [parse_items hw, collectItems_none hmax he]

theorem parse_some (hmax : f.max ≤ u32Max) (hr : f.max + 1 ≤ rounds) (h : ¬ f.Endless) :
    ∃ r, f.parse rounds = some r := by
  by_cases hw : f.Wild
  · exact ⟨_, parse_wild hw⟩
  · have he : ¬ EndlessIn (Text.trim f.text) f.min f.max f.names f.parts := fun h' ↦ h ⟨hw, h'⟩
    obtain ⟨r, hc⟩ := collectItems_some hmax hr he
    rw [parse_items hw, hc]
    cases r with
    | error e => exact ⟨_, rfl⟩
    | ok vals => exact ⟨_, rfl⟩

/-- The field that a text gives is that of the values which its items reach. -/
theorem parse_ok (hmax : f.max ≤ u32Max) (hw : ¬ f.Wild) (h : f.parse rounds = some (.ok field)) :
    (∀ item ∈ f.parts, ∃ s, f.read item = .ok s) ∧
      ∃ vals, vals ≠ [] ∧ field = .ofValues vals ∧ ∀ x, x ∈ vals ↔ f.Denotes x := by
  rw [parse_items hw] at h
  split at h
  · cases h
  · cases h
  · next vals hc =>
    obtain ⟨hread, l, rfl, hl⟩ := collectItems_ok hmax hc
    have h := Option.some.inj h
    unfold finish at h
    split at h
    · cases h
    · next hv =>
      exact ⟨hread, vals, by simpa using hv, (Except.ok.inj h).symm, hl⟩

theorem accepted_of_ok (hmax : f.max ≤ u32Max) (h : f.parse rounds = some (.ok field)) :
    f.Accepted := by
  by_cases hw : f.Wild
  · exact .inl hw
  · obtain ⟨hread, vals, hne, -, hmem⟩ := parse_ok hmax hw h
    obtain ⟨x, hx⟩ := List.exists_mem_of_ne_nil vals hne
    exact .inr ⟨hread, x, (hmem x).mp hx⟩

theorem not_accepted_of_error (hmax : f.max ≤ u32Max) {e : String}
    (h : f.parse rounds = some (.error e)) : ¬ f.Accepted := by
  intro ha
  by_cases hw : f.Wild
  · rw [parse_wild hw] at h
    cases h
  obtain ⟨hread, x, hx⟩ := ha.resolve_left hw
  rw [parse_items hw] at h
  split at h
  · cases h
  · next hc =>
    obtain ⟨item, hi, e', he⟩ := collectItems_error hc
    obtain ⟨s, hs⟩ := hread item hi
    rw [read, he] at hs
    cases hs
  · next vals hc =>
    obtain ⟨-, l, rfl, hl⟩ := collectItems_ok hmax hc
    have hmem := (hl x).mpr hx
    have h := Option.some.inj h
    unfold finish at h
    split at h
    · next hv =>
      rw [List.isEmpty_iff] at hv
      rw [hv] at hmem
      cases hmem
    · cases h

end FieldText

end Rystemd.Calendar
