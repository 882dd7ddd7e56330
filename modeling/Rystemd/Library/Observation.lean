import Mathlib.Order.Basic

namespace Rystemd

/-- Values that are read now and then. The last value read of each key is on record. -/
structure Observation (κ ν : Type) where
  value : Nat → κ → ν
  Read : Nat → κ → Prop
  record : Nat → κ → Option ν
  record_zero : ∀ k, record 0 k = none
  record_read : ∀ n k, Read n k → record (n + 1) k = some (value n k)
  record_unread : ∀ n k, ¬ Read n k → record (n + 1) k = record n k

namespace Observation

variable {κ ν : Type} (o : Observation κ ν) {k : κ} {v : ν} {i n : Nat}

/-- The last time before `n` that the key is read is `i`. -/
structure LastRead (n : Nat) (k : κ) (i : Nat) : Prop where
  lt : i < n
  read : o.Read i k
  unread : ∀ l, i < l → l < n → ¬ o.Read l k

variable {o}

theorem LastRead.succ (h : o.LastRead n k i) (hn : ¬ o.Read n k) : o.LastRead (n + 1) k i := by
  refine ⟨Nat.lt_succ_of_lt h.lt, h.read, fun l hil hl ↦ ?_⟩
  rcases Nat.lt_succ_iff_lt_or_eq.mp hl with hl | rfl
  · exact h.unread l hil hl
  · exact hn

theorem lastRead_of_read (hn : o.Read n k) : o.LastRead (n + 1) k n :=
  ⟨Nat.lt_succ_self n, hn, fun _ hnl hl ↦ absurd hnl (Nat.not_lt.mpr (Nat.le_of_lt_succ hl))⟩

theorem exists_lastRead (h : o.record n k = some v) :
    ∃ i, o.LastRead n k i ∧ v = o.value i k := by
  induction n with
  | zero =>
    rw [o.record_zero] at h
    cases h
  | succ n ih =>
    by_cases hn : o.Read n k
    · rw [o.record_read n k hn] at h
      exact ⟨n, lastRead_of_read hn, (Option.some.inj h).symm⟩
    · rw [o.record_unread n k hn] at h
      obtain ⟨i, hi, hv⟩ := ih h
      exact ⟨i, hi.succ hn, hv⟩

/-- What a key has now is what it has had since a beginning or since a time it was read. -/
def Steady (o : Observation κ ν) (begins : Nat → Prop) (n : Nat) (k : κ) : Prop :=
  ∃ i ≤ n, (begins i ∨ i < n ∧ o.Read i k) ∧ ∀ l, i ≤ l → l ≤ n → o.value l k = o.value n k

/-- If at each open time that is not answered the keys are steady, every change that an
open time finds has an answer since. The induction goes back to the last time of reading. -/
theorem exists_answer {begins opens answers : Nat → Prop} {p : ν → Prop}
    (hopens : ∀ n, o.Read n k → opens n)
    (hsteady : ∀ n, opens n → ¬ answers n → p (o.value n k) → o.Steady begins n k)
    (hin : i < n) (hbegins : ∀ l, i < l → l ≤ n → ¬ begins l) (hn : opens n)
    (hp : p (o.value n k)) (hne : o.value i k ≠ o.value n k) :
    ∃ l, i < l ∧ l ≤ n ∧ answers l := by
  induction n using Nat.strongRecOn with
  | ind n ih =>
    by_cases ha : answers n
    · exact ⟨n, hin, Nat.le_refl n, ha⟩
    · obtain ⟨j, hjn, hj, hsame⟩ := hsteady n hn ha hp
      have hij : i < j := by
        by_contra hji
        exact hne (hsame i (Nat.not_lt.mp hji) (Nat.le_of_lt hin))
      have hvalue := hsame j (Nat.le_refl j) hjn
      rcases hj with hj | ⟨hlt, hread⟩
      · exact absurd hj (hbegins j hij hjn)
      · rw [← hvalue] at hp hne
        obtain ⟨l, hil, hlj, hl⟩ := ih j hlt hij
          (fun l hil hlj ↦ hbegins l hil (Nat.le_trans hlj hjn)) (hopens j hread) hp hne
        exact ⟨l, hil, Nat.le_trans hlj hjn, hl⟩

end Observation

end Rystemd
