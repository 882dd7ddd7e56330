import Mathlib.Data.List.Pairwise
import Mathlib.Data.String.Basic

/-- A JSON value. A number with a fraction or an exponent is kept as its text. -/
inductive Json
  | null
  | bool (b : Bool)
  | num (n : Int)
  | float (text : String)
  | str (s : String)
  | arr (vs : List Json)
  | obj (entries : List (String × Json))

namespace Json

/-- Puts an entry into a map whose entries are in the order of their keys. -/
def insertEntry (k : String) (v : Json) : List (String × Json) → List (String × Json)
  | [] => [(k, v)]
  | e :: es =>
    if k < e.1 then (k, v) :: e :: es
    else if k = e.1 then (k, v) :: es
    else e :: insertEntry k v es

/-- The object of some entries; of two with one key the later stays. -/
def object (entries : List (String × Json)) : Json :=
  obj (entries.foldl (fun es e ↦ insertEntry e.1 e.2 es) [])

def entryOf (k : String) (es : List (String × Json)) : Option Json :=
  (es.find? fun e ↦ e.1 = k).map Prod.snd

def get (k : String) : Json → Option Json
  | obj es => entryOf k es
  | _ => none

def asBool : Json → Option Bool
  | bool b => some b
  | _ => none

def asStr : Json → Option String
  | str s => some s
  | _ => none

def asU64 : Json → Option UInt64
  | num n =>
    if 0 ≤ n ∧ n < 18446744073709551616 then some (UInt64.ofNat n.toNat) else none
  | _ => none

def asArray : Json → Option (List Json)
  | arr vs => some vs
  | _ => none

/-- The values that a text stands for: an object has its keys in order, and a number is one of a
machine. -/
inductive Canonical : Json → Prop
  | null : Canonical null
  | bool (b : Bool) : Canonical (bool b)
  | num {n : Int} : -9223372036854775808 ≤ n → n < 18446744073709551616 → Canonical (num n)
  | str (s : String) : Canonical (str s)
  | arr {vs : List Json} : (∀ v ∈ vs, Canonical v) → Canonical (arr vs)
  | obj {es : List (String × Json)} : (es.map Prod.fst).Pairwise (· < ·) →
      (∀ e ∈ es, Canonical e.2) → Canonical (obj es)

section Objects

variable {k k' : String} {v v' : Json} {e : String × Json} {es : List (String × Json)}

theorem entryOf_cons : entryOf k (e :: es) = if e.1 = k then some e.2 else entryOf k es := by
  unfold entryOf
  rw [List.find?_cons]
  by_cases h : e.1 = k
  · rw [if_pos h, decide_eq_true h, Option.map_some]
  · rw [if_neg h, decide_eq_false h]

theorem entryOf_insertEntry : entryOf k (insertEntry k' v es) =
    if k' = k then some v else entryOf k es := by
  induction es with
  | nil =>
    rw [insertEntry, entryOf_cons]
  | cons e es ih =>
    rw [insertEntry]
    split
    · rw [entryOf_cons]
    · split
      · next h =>
        rw [entryOf_cons, entryOf_cons, ← h]
        by_cases hk : k' = k
        · rw [if_pos hk, if_pos hk]
        · rw [if_neg hk, if_neg hk, if_neg hk]
      · next h =>
        rw [entryOf_cons, entryOf_cons, ih]
        by_cases hk : k' = k
        · rw [if_pos hk, if_pos hk, if_neg (fun he ↦ h (hk.trans he.symm))]
        · rw [if_neg hk, if_neg hk]

theorem mem_insertEntry (h : e ∈ insertEntry k v es) : e = (k, v) ∨ e ∈ es := by
  induction es with
  | nil => exact .inl (List.mem_singleton.mp h)
  | cons d es ih =>
    rw [insertEntry] at h
    split at h
    · exact List.mem_cons.mp h
    · split at h
      · exact (List.mem_cons.mp h).imp_right (List.mem_cons_of_mem _)
      · rcases List.mem_cons.mp h with rfl | h
        · exact .inr List.mem_cons_self
        · exact (ih h).imp_right (List.mem_cons_of_mem _)

theorem insertEntry_sorted (h : (es.map Prod.fst).Pairwise (· < ·)) :
    ((insertEntry k v es).map Prod.fst).Pairwise (· < ·) := by
  induction es with
  | nil => exact List.pairwise_singleton _ _
  | cons d es ih =>
    rw [List.map_cons, List.pairwise_cons] at h
    rw [insertEntry]
    split
    · next hlt =>
      rw [List.map_cons, List.map_cons, List.pairwise_cons, List.pairwise_cons]
      refine ⟨?_, h⟩
      intro a ha
      rcases List.mem_cons.mp ha with rfl | ha
      · exact hlt
      · exact hlt.trans (h.1 a ha)
    · split
      · next heq =>
        rw [List.map_cons, List.pairwise_cons, heq]
        exact h
      · next hlt heq =>
        rw [List.map_cons, List.pairwise_cons]
        refine ⟨?_, ih h.2⟩
        intro a ha
        obtain ⟨e, he, rfl⟩ := List.mem_map.mp ha
        rcases mem_insertEntry he with rfl | he
        · exact lt_of_le_of_ne (not_lt.mp hlt) fun h ↦ heq h.symm
        · exact h.1 _ (List.mem_map_of_mem he)

/-- An object is made of its entries, whatever their order is. -/
theorem canonical_object (h : ∀ e ∈ es, Canonical e.2) : Canonical (object es) := by
  have hfold : ∀ acc : List (String × Json), (acc.map Prod.fst).Pairwise (· < ·) →
      (∀ e ∈ acc, Canonical e.2) →
      Canonical (obj (es.foldl (fun es e ↦ insertEntry e.1 e.2 es) acc)) := by
    induction es with
    | nil => exact fun _ hsorted hacc ↦ .obj hsorted hacc
    | cons d es ih =>
      intro acc hsorted hacc
      rw [List.foldl_cons]
      apply ih (fun e he ↦ h e (List.mem_cons_of_mem _ he)) _ (insertEntry_sorted hsorted)
      intro e he
      rcases mem_insertEntry he with rfl | he
      · exact h d List.mem_cons_self
      · exact hacc e he
  exact hfold [] List.Pairwise.nil (List.forall_mem_nil _)

theorem entryOf_append {es' : List (String × Json)} :
    entryOf k (es ++ es') = (entryOf k es).or (entryOf k es') := by
  induction es with
  | nil => rfl
  | cons e es ih =>
    rw [List.cons_append, entryOf_cons, entryOf_cons, ih]
    split
    · rfl
    · rfl

theorem get_object : get k (object es) = entryOf k es.reverse := by
  have hfold : ∀ acc, entryOf k (es.foldl (fun es e ↦ insertEntry e.1 e.2 es) acc) =
      (entryOf k es.reverse).or (entryOf k acc) := by
    induction es with
    | nil => exact fun acc ↦ rfl
    | cons d es ih =>
      intro acc
      rw [List.foldl_cons, ih, entryOf_insertEntry, List.reverse_cons, entryOf_append, entryOf_cons,
        Option.or_assoc]
      split
      · rfl
      · rfl
  exact (hfold []).trans (Option.or_none ..)

end Objects

end Json

/-- A type whose values can be written as JSON and read back. -/
class Serde (α : Type) where
  toValue : α → Json
  fromValue : Json → Option α
  canonical (a : α) : (toValue a).Canonical
  fromValue_toValue (a : α) : fromValue (toValue a) = some a

namespace Json

export Serde (toValue fromValue canonical fromValue_toValue)

/-- The values of the type are never written as `null`. -/
class Present (α : Type) [Serde α] : Prop where
  toValue_ne (a : α) : toValue a ≠ null

instance : Serde String where
  toValue := str
  fromValue := asStr
  canonical := .str
  fromValue_toValue _ := rfl

instance : Serde Bool where
  toValue := bool
  fromValue := asBool
  canonical := .bool
  fromValue_toValue _ := rfl

instance : Serde Unit where
  toValue _ := null
  fromValue
    | null => some ()
    | _ => none
  canonical _ := .null
  fromValue_toValue _ := rfl

theorem asU64_toNat (n : UInt64) : asU64 (num n.toNat) = some n := by
  have h := n.toNat_lt
  rw [asU64, if_pos ⟨by omega, by omega⟩, Int.toNat_natCast, UInt64.ofNat_toNat]

instance : Serde UInt64 where
  toValue n := num n.toNat
  fromValue := asU64
  canonical n := .num (by omega) (by have := n.toNat_lt; omega)
  fromValue_toValue := asU64_toNat

instance : Serde Int64 where
  toValue n := num n.toInt
  fromValue
    | num n =>
      if -9223372036854775808 ≤ n ∧ n < 9223372036854775808 then some (Int64.ofInt n) else none
    | _ => none
  canonical n := .num n.le_toInt (by have := n.toInt_lt; omega)
  fromValue_toValue n := by
    dsimp only
    rw [if_pos ⟨n.le_toInt, n.toInt_lt⟩, Int64.ofInt_toInt]

instance : Serde Int32 where
  toValue n := num n.toInt
  fromValue
    | num n => if -2147483648 ≤ n ∧ n < 2147483648 then some (Int32.ofInt n) else none
    | _ => none
  canonical n := .num (by have := n.le_toInt; omega) (by have := n.toInt_lt; omega)
  fromValue_toValue n := by
    dsimp only
    rw [if_pos ⟨n.le_toInt, n.toInt_lt⟩, Int32.ofInt_toInt]

instance : Present String := ⟨fun _ h ↦ by cases h⟩

instance : Present UInt64 := ⟨fun _ h ↦ by cases h⟩

instance : Present Int64 := ⟨fun _ h ↦ by cases h⟩

instance : Present Int32 := ⟨fun _ h ↦ by cases h⟩

variable {α : Type} [Serde α]

instance [Present α] : Serde (Option α) where
  toValue
    | none => null
    | some a => toValue a
  fromValue
    | null => some none
    | v => (fromValue v).map some
  canonical
    | none => .null
    | some a => canonical a
  fromValue_toValue
    | none => rfl
    | some a => by
      split
      · next h => exact absurd h (Present.toValue_ne a)
      · rw [fromValue_toValue, Option.map_some]

theorem mapM_fromValue (as : List α) : (as.map toValue).mapM fromValue = some as := by
  induction as with
  | nil => rfl
  | cons a as ih => rw [List.map_cons, List.mapM_cons, fromValue_toValue, ih]; rfl

instance : Serde (List α) where
  toValue as := arr (as.map toValue)
  fromValue
    | arr vs => vs.mapM fromValue
    | _ => none
  canonical as := .arr fun v hv ↦ by
    obtain ⟨a, -, rfl⟩ := List.mem_map.mp hv
    exact canonical a
  fromValue_toValue := mapM_fromValue

/-- A field of a record. -/
def field (α : Type) [Serde α] (v : Json) (k : String) : Option α := (v.get k).bind fromValue

/-- A field that may be missing. -/
def optField (α : Type) [Serde α] [Present α] (v : Json) (k : String) : Option (Option α) :=
  match v.get k with
  | none => some none
  | some w => fromValue w

theorem field_of_get {v : Json} {k : String} {a : α} (h : v.get k = some (toValue a)) :
    v.field α k = some a := by
  rw [field, h, Option.bind_some, fromValue_toValue]

theorem optField_of_get [Present α] {v : Json} {k : String} {a : Option α}
    (h : v.get k = some (toValue a)) : v.optField α k = some a := by
  rw [optField, h]
  exact fromValue_toValue a

end Json
