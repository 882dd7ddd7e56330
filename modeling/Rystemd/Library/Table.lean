import Mathlib.Data.List.AList

namespace Rystemd

/-- A finite map. Its entries are kept in some order that no reader may rely on. -/
structure Table (κ ν : Type) where
  entries : AList (fun _ : κ ↦ ν)

namespace Table

variable {κ ν : Type}

def empty : Table κ ν := ⟨∅⟩

instance : Inhabited (Table κ ν) := ⟨empty⟩

def keys (t : Table κ ν) : List κ := t.entries.keys

@[simp] theorem keys_empty : (empty : Table κ ν).keys = [] := rfl

theorem nodup_keys {t : Table κ ν} : t.keys.Nodup := t.entries.keys_nodup

variable [DecidableEq κ]

def get (t : Table κ ν) (k : κ) : Option ν := t.entries.lookup k

def contains (t : Table κ ν) (k : κ) : Bool := (t.get k).isSome

def insert (t : Table κ ν) (k : κ) (v : ν) : Table κ ν := ⟨t.entries.insert k v⟩

def remove (t : Table κ ν) (k : κ) : Table κ ν := ⟨t.entries.erase k⟩

/-- Change the value at `k`, if there is one. -/
def modify (t : Table κ ν) (k : κ) (f : ν → ν) : Table κ ν :=
  match t.get k with
  | none => t
  | some v => t.insert k (f v)

/-- Keep the entries that satisfy `p`. -/
def retain (t : Table κ ν) (p : κ → ν → Bool) : Table κ ν :=
  t.keys.foldl (fun s k ↦ if (t.get k).any (p k) then s else s.remove k) t

/-- Change every value. -/
def mapValues (t : Table κ ν) (f : ν → ν) : Table κ ν := t.keys.foldl (fun s k ↦ s.modify k f) t

variable {t : Table κ ν} {k k' : κ} {v : ν}

@[simp] theorem get_empty : (empty : Table κ ν).get k = none := rfl

theorem get_insert : (t.insert k v).get k' = if k' = k then some v else t.get k' := by
  split
  · next h => subst h; exact AList.lookup_insert t.entries
  · next h => exact AList.lookup_insert_ne h

@[simp] theorem get_insert_self : (t.insert k v).get k = some v := by simp [get_insert]

theorem get_remove : (t.remove k).get k' = if k' = k then none else t.get k' := by
  split
  · next h => subst h; exact AList.lookup_erase k' t.entries
  · next h => exact AList.lookup_erase_ne h

@[simp] theorem get_remove_self : (t.remove k).get k = none := by simp [get_remove]

theorem get_of_get_remove (h : (t.remove k).get k' = some v) : t.get k' = some v := by
  rw [get_remove] at h
  split at h
  · cases h
  · exact h

theorem get_modify (f : ν → ν) :
    (t.modify k f).get k' = if k' = k then (t.get k').map f else t.get k' := by
  unfold modify
  split
  · next h => split <;> simp_all
  · next h => rw [get_insert]; split <;> simp_all

theorem mem_keys : k ∈ t.keys ↔ ∃ v, t.get k = some v := by
  rw [← Option.isSome_iff_exists, get, AList.lookup_isSome, AList.mem_keys, keys]

theorem contains_iff : t.contains k ↔ ∃ v, t.get k = some v := by
  rw [contains, Option.isSome_iff_exists]

theorem not_contains_iff : t.contains k = false ↔ t.get k = none := by
  simp [contains]

theorem get_foldl_remove (q : κ → Bool) (l : List κ) (s : Table κ ν) :
    (l.foldl (fun s k ↦ if q k then s else s.remove k) s).get k =
      if k ∈ l ∧ q k = false then none else s.get k := by
  induction l generalizing s with
  | nil => simp
  | cons a l ih =>
    rw [List.foldl_cons, ih]
    by_cases ha : q a
    · have hne : q k = false → k ≠ a := by rintro hk rfl; simp_all
      by_cases hk : q k = false <;> simp_all
    · by_cases hk : k = a
      · subst hk; simp_all
      · simp [ha, hk, get_remove]

theorem get_foldl_remove_of_notMem (l : List κ) (h : k ∉ l) (s : Table κ ν) :
    (l.foldl remove s).get k = s.get k := by
  induction l generalizing s with
  | nil => rfl
  | cons a l ih =>
    rw [List.mem_cons, not_or] at h
    rw [List.foldl_cons, ih h.2, get_remove, if_neg h.1]

theorem get_retain (p : κ → ν → Bool) : (t.retain p).get k = (t.get k).filter (p k) := by
  unfold retain
  rw [get_foldl_remove (fun k ↦ (t.get k).any (p k))]
  cases h : t.get k with
  | none => simp
  | some v =>
    have hk : k ∈ t.keys := mem_keys.mpr ⟨v, h⟩
    cases hp : p k v <;> simp [hk, hp, Option.filter]

theorem get_foldl_modify (f : ν → ν) {l : List κ} (hl : l.Nodup) (s : Table κ ν) :
    (l.foldl (fun s k ↦ s.modify k f) s).get k =
      if k ∈ l then (s.get k).map f else s.get k := by
  induction l generalizing s with
  | nil => simp
  | cons a l ih =>
    obtain ⟨ha, hl⟩ := List.nodup_cons.mp hl
    rw [List.foldl_cons, ih hl, get_modify]
    by_cases hk : k = a
    · subst hk; simp [ha]
    · simp [hk]

theorem get_mapValues (f : ν → ν) : (t.mapValues f).get k = (t.get k).map f := by
  rw [mapValues, get_foldl_modify f nodup_keys]
  split
  · rfl
  · next h =>
    cases hk : t.get k with
    | none => rfl
    | some v => exact absurd (mem_keys.mpr ⟨v, hk⟩) h

end Table

end Rystemd
