import Rystemd.Library.Simulation
import Rystemd.TimerWheel

namespace Rystemd

open Simulation

/-- What is asked of the timers. -/
inductive TimerRequest
  | schedule (deadline : Nat) (kind : TimerKind) (unit : Name)
  | cancel (id : Nat)
  | cancelByUnit (unit : Name)
  | cancelByKind (unit : Name) (kind : TimerKind)
  | nextDeadline
  | popDue (now : Nat)
  | hasServiceTimers

inductive TimerAnswer
  | scheduled (id : Nat)
  | cancelled
  | deadline (next : Option Nat)
  | due (entries : List TimerEntry)
  | busy (b : Bool)

def TimerWheel.answer (w : TimerWheel) : TimerRequest → TimerAnswer × TimerWheel
  | .schedule deadline kind unit =>
    let w := w.schedule deadline kind unit
    (.scheduled w.nextId, w)
  | .cancel id => (.cancelled, w.cancel id)
  | .cancelByUnit unit => (.cancelled, w.cancelByUnit unit)
  | .cancelByKind unit kind => (.cancelled, w.cancelByKind unit kind)
  | .nextDeadline => (.deadline w.nextDeadline.1, w.nextDeadline.2)
  | .popDue now => (.due (w.popDue now).1, (w.popDue now).2)
  | .hasServiceTimers => (.busy w.hasServiceTimers, w)

/-- What the wheel is for: the deadlines that are still to come, in a plain list. -/
structure Deadlines where
  live : List TimerEntry := []
  lastId : Nat := 0

/-- By the deadline, and by the id where the deadlines are equal. -/
def TimerEntry.Before (a b : TimerEntry) : Prop :=
  a.deadline < b.deadline ∨ a.deadline = b.deadline ∧ a.id ≤ b.id

instance : DecidableRel TimerEntry.Before := fun _ _ ↦ inferInstanceAs (Decidable (_ ∨ _))

namespace Deadlines

def schedule (s : Deadlines) (deadline : Nat) (kind : TimerKind) (unit : Name) : Deadlines :=
  { live := s.live ++ [{ deadline, id := s.lastId + 1, kind, unit }], lastId := s.lastId + 1 }

def delete (s : Deadlines) (p : TimerEntry → Bool) : Deadlines :=
  { s with live := s.live.filter fun e ↦ !p e }

def nextDeadline (s : Deadlines) : Option Nat := (s.live.map TimerEntry.deadline).min?

/-- The entries that are due, each once, in their order; the others stay. -/
def popDue (s : Deadlines) (now : Nat) : List TimerEntry × Deadlines :=
  ((s.live.filter fun e ↦ e.deadline ≤ now).insertionSort TimerEntry.Before,
    s.delete fun e ↦ e.deadline ≤ now)

def hasServiceTimers (s : Deadlines) : Bool := s.live.any fun e ↦ !e.kind.service

def answer (s : Deadlines) : TimerRequest → TimerAnswer × Deadlines
  | .schedule deadline kind unit => (.scheduled (s.lastId + 1), s.schedule deadline kind unit)
  | .cancel id => (.cancelled, s.delete fun e ↦ e.id = id)
  | .cancelByUnit unit => (.cancelled, s.delete fun e ↦ e.unit = unit)
  | .cancelByKind unit kind => (.cancelled, s.delete fun e ↦ e.unit = unit && e.kind = kind)
  | .nextDeadline => (.deadline s.nextDeadline, s)
  | .popDue now => (.due (s.popDue now).1, (s.popDue now).2)
  | .hasServiceTimers => (.busy s.hasServiceTimers, s)

end Deadlines

/-- The order of the heap. -/
def Earlier (a b : Nat × Nat) : Prop := a.1 < b.1 ∨ a.1 = b.1 ∧ a.2 ≤ b.2

instance : DecidableRel Earlier := fun _ _ ↦ inferInstanceAs (Decidable (_ ∨ _))

instance : IsTrans (Nat × Nat) Earlier := ⟨fun a b c hab hbc ↦ by unfold Earlier at *; omega⟩

instance : Std.Total Earlier := ⟨fun a b ↦ by unfold Earlier; omega⟩

/-- The wheel holds these deadlines: each of them is in the heap, under an id that no other entry
of the heap has. The other entries of the heap are stale. -/
structure TimerWheel.Holds (w : TimerWheel) (s : Deadlines) : Prop where
  lastId : w.nextId = s.lastId
  entries : ∀ id e, w.entries.get id = some e ↔ e ∈ s.live ∧ e.id = id
  ids : (s.live.map TimerEntry.id).Nodup
  heap : ∀ e ∈ s.live, (e.deadline, e.id) ∈ w.heap
  sorted : w.heap.Pairwise Earlier
  distinct : (w.heap.map Prod.snd).Nodup
  fresh : ∀ p ∈ w.heap, p.2 ≤ w.nextId

namespace TimerWheel.Holds

variable {w : TimerWheel} {s : Deadlines} {e : TimerEntry} {id now deadline : Nat}
  {kind : TimerKind} {unit : Name}

theorem empty : ({} : TimerWheel).Holds {} := by
  refine ⟨rfl, fun id e ↦ ?_, .nil, ?_, .nil, .nil, ?_⟩
  · simp [Table.get_empty]
  · intro e he
    cases he
  · intro p hp
    cases hp

theorem schedule (h : w.Holds s) :
    (w.schedule deadline kind unit).Holds (s.schedule deadline kind unit) := by
  have hperm := w.heap.perm_orderedInsert Earlier (deadline, w.nextId + 1)
  have hmem : ∀ p, p ∈ (w.schedule deadline kind unit).heap ↔
      p = (deadline, w.nextId + 1) ∨ p ∈ w.heap := fun p ↦ by
    rw [← List.mem_cons]
    exact hperm.mem_iff
  have hnew : ∀ e ∈ s.live, e.id ≠ w.nextId + 1 := fun e he ↦ by
    have := h.fresh _ (h.heap e he)
    dsimp only at this
    omega
  refine ⟨congrArg (· + 1) h.lastId, fun id e ↦ ?_, ?_, fun e he ↦ ?_, ?_, ?_, fun p hp ↦ ?_⟩
  · simp only [TimerWheel.schedule, Deadlines.schedule, Table.get_insert, List.mem_append,
      List.mem_singleton, ← h.lastId]
    by_cases hid : id = w.nextId + 1
    · rw [if_pos hid]
      constructor
      · intro he
        cases he
        exact ⟨.inr rfl, hid.symm⟩
      · rintro ⟨he | he, hi⟩
        · exact absurd (hi.trans hid) (hnew e he)
        · rw [he]
    · rw [if_neg hid, h.entries id e]
      constructor
      · exact fun he ↦ ⟨.inl he.1, he.2⟩
      · rintro ⟨he | he, hi⟩
        · exact ⟨he, hi⟩
        · rw [he] at hi
          exact absurd hi.symm hid
  · simp only [Deadlines.schedule, List.map_append, List.map_singleton, ← h.lastId]
    apply h.ids.append (List.nodup_singleton _)
    simpa [List.disjoint_singleton] using hnew
  · rw [hmem]
    simp only [Deadlines.schedule, List.mem_append, List.mem_singleton] at he
    rcases he with he | rfl
    · exact .inr (h.heap e he)
    · rw [h.lastId]
      exact .inl rfl
  · exact h.sorted.orderedInsert _ _
  · apply (hperm.map Prod.snd).nodup_iff.mpr
    rw [List.map_cons, List.nodup_cons]
    refine ⟨fun hin ↦ ?_, h.distinct⟩
    obtain ⟨p, hp, hid⟩ := List.mem_map.mp hin
    have := h.fresh p hp
    dsimp only at hid
    omega
  · rcases (hmem p).mp hp with rfl | hp
    · exact le_rfl
    · exact (h.fresh p hp).trans (Nat.le_succ _)

/-- What is deleted from the list may stay in the heap. -/
theorem delete {entries : Table Nat TimerEntry} {p : TimerEntry → Bool} (h : w.Holds s)
    (he : ∀ id, entries.get id = (w.entries.get id).filter fun e ↦ !p e) :
    { w with entries }.Holds (s.delete p) := by
  refine ⟨h.lastId, fun id e ↦ ?_, h.ids.sublist (List.filter_sublist.map _), fun e he ↦ ?_,
    h.sorted, h.distinct, h.fresh⟩
  · rw [he, Option.filter_eq_some_iff, h.entries id e, Deadlines.delete, List.mem_filter]
    exact and_right_comm
  · exact h.heap e (List.mem_filter.mp he).1

/-- An entry of the heap that is not stale is listed with its own deadline and id. -/
theorem entry_eq (h : w.Holds s) {p : Nat × Nat} (hp : p ∈ w.heap)
    (he : w.entries.get p.2 = some e) : p = (e.deadline, e.id) := by
  obtain ⟨hlive, hid⟩ := (h.entries p.2 e).mp he
  exact List.inj_on_of_nodup_map h.distinct hp (h.heap e hlive) hid.symm

end TimerWheel.Holds

/-- The live entries in the order of the heap. -/
def TimerWheel.listed (w : TimerWheel) : List TimerEntry :=
  w.heap.filterMap fun p ↦ w.entries.get p.2

namespace TimerWheel.Holds

variable {w : TimerWheel} {s : Deadlines} {e : TimerEntry} {now : Nat}

theorem mem_listed (h : w.Holds s) : e ∈ w.listed ↔ e ∈ s.live := by
  rw [listed, List.mem_filterMap]
  constructor
  · intro ⟨p, _, he⟩
    exact ((h.entries p.2 e).mp he).1
  · intro he
    exact ⟨_, h.heap e he, (h.entries e.id e).mpr ⟨he, rfl⟩⟩

theorem listed_eq (h : w.Holds s) : w.listed =
    w.heap.filterMap fun p ↦ (w.entries.get p.2).filter fun e ↦ p = (e.deadline, e.id) := by
  apply List.filterMap_congr
  intro p hp
  cases he : w.entries.get p.2 with
  | none => rfl
  | some e => rw [Option.filter_some, if_pos (decide_eq_true (h.entry_eq hp he))]

theorem listed_sorted (h : w.Holds s) : w.listed.Pairwise TimerEntry.Before := by
  rw [h.listed_eq]
  apply h.sorted.filterMap
  intro p q hpq e he e' he'
  obtain ⟨-, rfl⟩ := Option.filter_eq_some_iff.mp he |>.imp_right of_decide_eq_true
  obtain ⟨-, rfl⟩ := Option.filter_eq_some_iff.mp he' |>.imp_right of_decide_eq_true
  exact hpq

theorem listed_perm (h : w.Holds s) : w.listed.Perm s.live := by
  apply (List.perm_ext_iff_of_nodup ?_ h.ids.of_map).mpr fun e ↦ h.mem_listed
  rw [h.listed_eq]
  apply h.distinct.of_map.filterMap
  intro p q e he he'
  have hp := of_decide_eq_true (Option.filter_eq_some_iff.mp he).2
  have hq := of_decide_eq_true (Option.filter_eq_some_iff.mp he').2
  exact hp.trans hq.symm

/-- Two entries of the list that are each before the other are one. -/
theorem before_antisymm (h : w.Holds s) {a b : TimerEntry} (ha : a ∈ s.live) (hb : b ∈ s.live)
    (hab : a.Before b) (hba : b.Before a) : a = b := by
  have hid : a.id = b.id := by
    unfold TimerEntry.Before at hab hba
    omega
  exact List.inj_on_of_nodup_map h.ids ha hb hid

end TimerWheel.Holds

instance : IsTrans TimerEntry TimerEntry.Before :=
  ⟨fun a b c hab hbc ↦ by unfold TimerEntry.Before at *; omega⟩

instance : Std.Total TimerEntry.Before := ⟨fun a b ↦ by unfold TimerEntry.Before; omega⟩

section Loops

variable {heap : List (Nat × Nat)} {entries : Table Nat TimerEntry} {now id : Nat}

theorem popLoop_none (h : ∀ p ∈ heap, now < p.1) :
    TimerWheel.popLoop now heap entries = ([], heap, entries) := by
  cases heap with
  | nil => rfl
  | cons p heap => rw [TimerWheel.popLoop, if_pos (h p List.mem_cons_self)]

/-- What the loop of `pop_due` takes from the heap and from the entries. -/
theorem popLoop_eq (now : Nat) (entries : Table Nat TimerEntry) (hs : heap.Pairwise Earlier)
    (hd : (heap.map Prod.snd).Nodup) :
    (TimerWheel.popLoop now heap entries).1 =
        (heap.filter fun p ↦ p.1 ≤ now).filterMap (fun p ↦ entries.get p.2) ∧
      (TimerWheel.popLoop now heap entries).2.1 = heap.filter (fun p ↦ now < p.1) ∧
      ∀ id, (TimerWheel.popLoop now heap entries).2.2.get id =
        if id ∈ (heap.filter fun p ↦ p.1 ≤ now).map Prod.snd then none else entries.get id := by
  induction heap generalizing entries with
  | nil => simp [TimerWheel.popLoop]
  | cons p heap ih =>
    obtain ⟨hp, hs⟩ := List.pairwise_cons.mp hs
    rw [List.map_cons, List.nodup_cons] at hd
    by_cases hnow : now < p.1
    · have hall : ∀ q ∈ p :: heap, now < q.1 := by
        intro q hq
        rcases List.mem_cons.mp hq with rfl | hq
        · exact hnow
        · have := hp q hq
          unfold Earlier at this
          omega
      rw [popLoop_none hall]
      refine ⟨?_, ?_, fun id ↦ ?_⟩
      · rw [List.filter_eq_nil_iff.mpr fun q hq ↦ by simpa using hall q hq]
        rfl
      · rw [List.filter_eq_self.mpr fun q hq ↦ by simpa using hall q hq]
      · rw [List.filter_eq_nil_iff.mpr fun q hq ↦ by simpa using hall q hq]
        rfl
    · have hfilter : (p :: heap).filter (fun q ↦ q.1 ≤ now) =
          p :: heap.filter fun q ↦ q.1 ≤ now :=
        List.filter_cons_of_pos (decide_eq_true (Nat.le_of_not_lt hnow))
      have hrest : (p :: heap).filter (fun q ↦ now < q.1) = heap.filter fun q ↦ now < q.1 :=
        List.filter_cons_of_neg (by simpa using hnow)
      rw [TimerWheel.popLoop, if_neg hnow, hfilter, hrest]
      simp only [List.map_cons, List.mem_cons, List.filterMap_cons]
      cases he : entries.get p.2 with
      | none =>
        obtain ⟨h₁, h₂, h₃⟩ := ih entries hs hd.2
        refine ⟨h₁, h₂, fun id ↦ (h₃ id).trans ?_⟩
        by_cases hid : id = p.2
        · rw [hid, he, ite_self, ite_self]
        · exact if_congr (or_iff_right hid).symm rfl rfl
      | some e =>
        obtain ⟨h₁, h₂, h₃⟩ := ih (entries.remove p.2) hs hd.2
        refine ⟨congrArg (e :: ·) (h₁.trans ?_), h₂, fun id ↦ (h₃ id).trans ?_⟩
        · apply List.filterMap_congr
          intro q hq
          rw [Table.get_remove, if_neg]
          intro hid
          exact hd.1 (hid ▸ List.mem_map_of_mem (List.mem_filter.mp hq).1)
        · rw [Table.get_remove]
          by_cases hid : id = p.2
          · rw [if_pos hid, ite_self, if_pos (.inl hid)]
          · rw [if_neg hid]
            exact if_congr (or_iff_right hid).symm rfl rfl

/-- The loop of `next_deadline` gives up stale entries only. -/
theorem peekLoop_eq (heap : List (Nat × Nat)) (entries : Table Nat TimerEntry) :
    (TimerWheel.peekLoop entries heap).1 =
      ((heap.filterMap fun p ↦ entries.get p.2).head?).map TimerEntry.deadline ∧
    (TimerWheel.peekLoop entries heap).2.Sublist heap ∧
    ∀ p ∈ heap, (entries.get p.2).isSome → p ∈ (TimerWheel.peekLoop entries heap).2 := by
  induction heap with
  | nil => exact ⟨rfl, .slnil, fun p hp ↦ absurd hp List.not_mem_nil⟩
  | cons p heap ih =>
    rw [TimerWheel.peekLoop]
    cases he : entries.get p.2 with
    | none =>
      obtain ⟨h₁, h₂, h₃⟩ := ih
      rw [List.filterMap_cons, he]
      refine ⟨h₁, h₂.cons p, fun q hq hsome ↦ ?_⟩
      rcases List.mem_cons.mp hq with rfl | hq
      · rw [he] at hsome
        cases hsome
      · exact h₃ q hq hsome
    | some e =>
      rw [List.filterMap_cons, he]
      exact ⟨rfl, .refl _, fun q hq _ ↦ hq⟩

end Loops

namespace TimerWheel.Holds

variable {w : TimerWheel} {s : Deadlines} {now : Nat}

theorem nextDeadline (h : w.Holds s) :
    w.nextDeadline.1 = s.nextDeadline ∧ w.nextDeadline.2.Holds s := by
  obtain ⟨hnext, hsub, hkept⟩ := peekLoop_eq w.heap w.entries
  refine ⟨hnext.trans ?_, h.lastId, h.entries, h.ids, fun e he ↦ ?_, h.sorted.sublist hsub,
    h.distinct.sublist (hsub.map _), fun p hp ↦ h.fresh p (hsub.subset hp)⟩
  · have hsorted := h.listed_sorted
    have hperm := h.listed_perm
    change w.listed.head?.map TimerEntry.deadline = _
    cases hl : w.listed with
    | nil =>
      rw [hl] at hperm
      rw [Deadlines.nextDeadline, List.nil_perm.mp hperm]
      rfl
    | cons e l =>
      rw [hl] at hsorted hperm
      symm
      apply List.min?_eq_some_iff.mpr
      refine ⟨List.mem_map_of_mem (hperm.mem_iff.mp List.mem_cons_self), fun d hd ↦ ?_⟩
      obtain ⟨e', he', rfl⟩ := List.mem_map.mp hd
      rcases List.mem_cons.mp (hperm.mem_iff.mpr he') with rfl | he'
      · exact le_rfl
      · have := (List.pairwise_cons.mp hsorted).1 e' he'
        unfold TimerEntry.Before at this
        omega
  · apply hkept _ (h.heap e he)
    rw [(h.entries e.id e).mpr ⟨he, rfl⟩]
    rfl

theorem popDue (h : w.Holds s) :
    (w.popDue now).1 = (s.popDue now).1 ∧ (w.popDue now).2.Holds (s.popDue now).2 := by
  obtain ⟨hdue, hheap, hget⟩ := popLoop_eq now w.entries h.sorted h.distinct
  have hlive : ∀ e, e ∈ (s.popDue now).2.live ↔ e ∈ s.live ∧ now < e.deadline := by
    simp [Deadlines.popDue, Deadlines.delete]
  have hsub : (w.popDue now).2.heap.Sublist w.heap := by
    change (popLoop now w.heap w.entries).2.1.Sublist w.heap
    rw [hheap]
    exact List.filter_sublist
  refine ⟨?_, h.lastId, fun id e ↦ ?_, h.ids.sublist (List.filter_sublist.map _), fun e he ↦ ?_,
    h.sorted.sublist hsub, h.distinct.sublist (hsub.map _), fun p hp ↦ h.fresh p (hsub.subset hp)⟩
  · have hfilter : (w.popDue now).1 = w.listed.filter fun e ↦ e.deadline ≤ now := by
      apply hdue.trans
      rw [listed, List.filter_filterMap, List.filterMap_filter]
      apply List.filterMap_congr
      intro p hp
      cases he : w.entries.get p.2 with
      | none => simp
      | some e =>
        rw [h.entry_eq hp he]
        simp [Option.filter_some]
    rw [hfilter]
    have hperm : (w.listed.filter fun e ↦ e.deadline ≤ now).Perm (s.popDue now).1 :=
      (h.listed_perm.filter _).trans (List.perm_insertionSort ..).symm
    apply hperm.eq_of_pairwise ?_ (h.listed_sorted.filter _) (List.pairwise_insertionSort ..)
    intro a b ha hb
    have ha := h.mem_listed.mp (List.mem_filter.mp ha).1
    have hb := (List.mem_filter.mp ((List.mem_insertionSort _).mp hb)).1
    exact h.before_antisymm ha hb
  · change (popLoop now w.heap w.entries).2.2.get id = some e ↔ _
    rw [hget id, hlive]
    constructor
    · intro he
      split at he
      · cases he
      · next hid =>
        obtain ⟨hl, rfl⟩ := (h.entries id e).mp he
        refine ⟨⟨hl, Nat.lt_of_not_le fun hle ↦ hid ?_⟩, rfl⟩
        exact List.mem_map_of_mem (List.mem_filter.mpr ⟨h.heap e hl, decide_eq_true hle⟩)
    · rintro ⟨⟨hl, hlt⟩, rfl⟩
      rw [if_neg, (h.entries e.id e).mpr ⟨hl, rfl⟩]
      intro hid
      obtain ⟨p, hp, hpid⟩ := List.mem_map.mp hid
      obtain ⟨hp, hle⟩ := List.mem_filter.mp hp
      have hpe := List.inj_on_of_nodup_map h.distinct hp (h.heap e hl) hpid
      rw [hpe] at hle
      exact absurd (of_decide_eq_true hle) (Nat.not_le.mpr hlt)
  · obtain ⟨hl, hlt⟩ := (hlive e).mp he
    change _ ∈ (popLoop now w.heap w.entries).2.1
    rw [hheap]
    exact List.mem_filter.mpr ⟨h.heap e hl, decide_eq_true hlt⟩

theorem hasServiceTimers (h : w.Holds s) : w.hasServiceTimers = s.hasServiceTimers := by
  rw [Bool.eq_iff_iff, TimerWheel.hasServiceTimers, Deadlines.hasServiceTimers, List.any_eq_true,
    List.any_eq_true]
  constructor
  · intro ⟨id, _, he⟩
    obtain ⟨e, he, hk⟩ := (Option.any_eq_true ..).mp he
    refine ⟨e, ((h.entries id e).mp he).1, ?_⟩
    revert hk
    cases e.kind <;> exact fun h ↦ h
  · intro ⟨e, he, hk⟩
    have hget := (h.entries e.id e).mpr ⟨he, rfl⟩
    refine ⟨e.id, Table.mem_keys.mpr ⟨e, hget⟩, ?_⟩
    rw [hget]
    revert hk
    dsimp only [Option.any_some]
    cases e.kind <;> exact fun h ↦ h

theorem cancel (h : w.Holds s) (id : Nat) :
    (w.cancel id).Holds (s.delete fun e ↦ e.id = id) := by
  apply h.delete
  intro i
  rw [Table.get_remove]
  cases he : w.entries.get i with
  | none => rw [ite_self, Option.filter_none]
  | some e =>
    obtain ⟨-, rfl⟩ := (h.entries i e).mp he
    rw [Option.filter_some]
    by_cases hid : e.id = id <;> simp [hid]

/-- One request at a time the wheel answers as the list does. -/
theorem answer (h : w.Holds s) (r : TimerRequest) :
    (w.answer r).1 = (s.answer r).1 ∧ (w.answer r).2.Holds (s.answer r).2 := by
  cases r with
  | schedule deadline kind unit =>
    exact ⟨congrArg (fun n ↦ TimerAnswer.scheduled (n + 1)) h.lastId, h.schedule⟩
  | cancel id => exact ⟨rfl, h.cancel id⟩
  | cancelByUnit unit =>
    refine ⟨rfl, h.delete fun i ↦ ?_⟩
    rw [Table.get_retain]
    simp
  | cancelByKind unit kind =>
    refine ⟨rfl, h.delete fun i ↦ ?_⟩
    rw [Table.get_retain]
  | nextDeadline => exact ⟨congrArg _ h.nextDeadline.1, h.nextDeadline.2⟩
  | popDue now => exact ⟨congrArg _ h.popDue.1, h.popDue.2⟩
  | hasServiceTimers => exact ⟨congrArg _ h.hasServiceTimers, h⟩

end TimerWheel.Holds

/-- To its users the wheel is a list of deadlines from which a cancelled one is gone at once. -/
theorem wheel_answers (rs : List TimerRequest) :
    answers TimerWheel.answer {} rs = answers Deadlines.answer {} rs := by
  have h : Simulates TimerWheel.answer Deadlines.answer TimerWheel.Holds :=
    fun _ _ h r ↦ h.answer r
  exact h.answers_eq .empty rs

end Rystemd
