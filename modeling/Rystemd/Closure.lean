import Rystemd.Dependencies
import Rystemd.Library.Search

namespace Rystemd

open Relation

variable {units : Table Name Unit} {edge : Unit → List Name} {start n : Name}
  {stack out : List Name}

/-- The names that the edges of a unit lead to; a unit that is not loaded has none. -/
def successors (units : Table Name Unit) (edge : Unit → List Name) (n : Name) : List Name :=
  (units.get n).elim [] edge

theorem mem_successors {d : Name} : d ∈ successors units edge n ↔ Edge units edge n d := by
  unfold successors Edge
  cases units.get n with
  | none => simp
  | some u => simp

theorem mem_targets {d : Name} (h : d ∈ successors units edge n) :
    d ∈ units.keys.flatMap fun n ↦ (units.get n).elim [] edge := by
  obtain ⟨u, hu, -⟩ := mem_successors.mp h
  exact List.mem_flatMap.mpr ⟨n, Table.mem_keys.mpr ⟨u, hu⟩, h⟩

/-- With enough fuel the loop ends as the search does. -/
theorem closureLoop_ends (fuel : Nat) (h : Search.remaining
    (units.keys.flatMap fun n ↦ (units.get n).elim [] edge) stack out ≤ fuel) :
    Search.Ends (successors units edge) stack out (closureLoop units edge fuel stack out) := by
  induction fuel generalizing stack out with
  | zero =>
    unfold Search.remaining at h
    obtain rfl := List.length_eq_zero_iff.mp (Nat.le_zero.mp (Nat.le_trans (Nat.le_add_right ..) h))
    exact .done
  | succ fuel ih =>
    cases stack with
    | nil => exact .done
    | cons n stack =>
      apply Search.Ends.visit
      have hpush := Nat.lt_of_lt_of_le (Search.remaining_push fun _ ↦ mem_targets) h
      have hrest := ih (Nat.le_of_lt_succ hpush)
      unfold closureLoop
      unfold successors at hrest ⊢
      cases hu : units.get n with
      | none =>
        rw [hu] at hrest
        exact hrest
      | some u =>
        rw [hu] at hrest
        exact hrest

theorem closure_ends (units : Table Name Unit) (start : Name) (edge : Unit → List Name) :
    Search.Ends (successors units edge) [start] [] (closure units start edge) := by
  apply closureLoop_ends
  have hfilter := List.length_filter_le (· ∉ ([] : List Name))
    (units.keys.flatMap fun n ↦ (units.get n).elim [] edge)
  unfold Search.remaining closureFuel
  rw [List.length_singleton]
  omega

theorem edge_eq : (fun a b ↦ b ∈ successors units edge a) = Edge units edge := by
  funext a b
  exact propext mem_successors

/-- The loop ends, with every unit other than the start that edges lead to, each once. -/
structure ExactClosure (units : Table Name Unit) (start : Name) (edge : Unit → List Name) :
    Prop where
  ends : Search.Ends (successors units edge) [start] [] (closure units start edge)
  nodup : (closure units start edge).Nodup
  mem : ∀ n, n ∈ closure units start edge ↔ n ≠ start ∧ TransGen (Edge units edge) start n

/-- The closure has every other unit that edges lead to. -/
theorem mem_closure_iff (hn : n ≠ start) :
    n ∈ closure units start edge ↔ TransGen (Edge units edge) start n := by
  rw [(closure_ends units start edge).mem_iff, Search.step_path_iff hn, edge_eq]

/-- It has the start if the start is on a cycle through another unit. -/
theorem start_mem_closure_iff : start ∈ closure units start edge ↔
    ∃ n, n ≠ start ∧ TransGen (Edge units edge) start n ∧ TransGen (Edge units edge) n start := by
  rw [(closure_ends units start edge).mem_iff, Search.step_cycle_iff, edge_eq]

/-- The closure is exact if the start is on no cycle through another unit. -/
theorem exactClosure_iff (units : Table Name Unit) (start : Name) (edge : Unit → List Name) :
    ExactClosure units start edge ↔ ∀ n, n ≠ start →
      TransGen (Edge units edge) start n → ¬ TransGen (Edge units edge) n start := by
  constructor
  · intro h n hn hpath hback
    have hstart := start_mem_closure_iff.mpr ⟨n, hn, hpath, hback⟩
    exact ((h.mem start).mp hstart).1 rfl
  · intro h
    refine ⟨closure_ends units start edge, (closure_ends units start edge).nodup, fun n ↦ ?_⟩
    by_cases hn : n = start
    · subst hn
      constructor
      · intro hstart
        obtain ⟨d, hd, hpath, hback⟩ := start_mem_closure_iff.mp hstart
        exact absurd hback (h d hd hpath)
      · exact fun hstart ↦ absurd rfl hstart.1
    · rw [mem_closure_iff hn, and_iff_right hn]

def requiring (n d : Name) : Unit :=
  { name := n, kind := .service, file := some { unit := { requires := [d] } } }

/-- Two units that require each other. -/
def requiringEachOther : Table Name Unit :=
  (Table.empty.insert "a" (requiring "a" "b")).insert "b" (requiring "b" "a")

/-- The start comes back. -/
theorem requiring_itself : closure requiringEachOther "a" requires = ["b", "a"] ∧
    ¬ ExactClosure requiringEachOther "a" requires := by
  have hclosure : closure requiringEachOther "a" requires = ["b", "a"] := by decide
  refine ⟨hclosure, fun h ↦ ?_⟩
  have hstart : "a" ∈ closure requiringEachOther "a" requires := by
    rw [hclosure]
    decide
  exact ((h.mem "a").mp hstart).1 rfl

end Rystemd
