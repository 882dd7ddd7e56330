import Mathlib.Data.List.Sort
import Rystemd.Units

namespace Rystemd

inductive TimerKind
  | startTimeout | stopTimeout | restartDelay
  | calendarElapse (index : Nat)
  | monotonicElapse
  deriving DecidableEq

/-- The deadlines that services have, as against those of timer units. -/
def TimerKind.service : TimerKind → Bool
  | .startTimeout | .stopTimeout | .restartDelay => true
  | .calendarElapse _ | .monotonicElapse => false

structure TimerEntry where
  deadline : Nat
  id : Nat
  kind : TimerKind
  unit : Name
  deriving DecidableEq

/-- The heap is kept as a sorted list; an entry that is no longer in `entries` is stale. -/
structure TimerWheel where
  heap : List (Nat × Nat) := []
  entries : Table Nat TimerEntry := .empty
  nextId : Nat := 0

namespace TimerWheel

def schedule (w : TimerWheel) (deadline : Nat) (kind : TimerKind) (unit : Name) : TimerWheel :=
  let id := w.nextId + 1
  { heap := w.heap.orderedInsert (fun a b ↦ a.1 < b.1 ∨ a.1 = b.1 ∧ a.2 ≤ b.2) (deadline, id)
    entries := w.entries.insert id { deadline, id, kind, unit }
    nextId := id }

def cancel (w : TimerWheel) (id : Nat) : TimerWheel := { w with entries := w.entries.remove id }

def cancelByUnit (w : TimerWheel) (unit : Name) : TimerWheel :=
  { w with entries := w.entries.retain fun _ e ↦ e.unit ≠ unit }

def cancelByKind (w : TimerWheel) (unit : Name) (kind : TimerKind) : TimerWheel :=
  { w with entries := w.entries.retain fun _ e ↦ !(e.unit = unit && e.kind = kind) }

/-- Have one deadline for this unit and kind, `t` from now; nothing for `infinity`. -/
def arm (w : TimerWheel) (now : Nat) (unit : Name) (kind : TimerKind) (t : TimeSpan) : TimerWheel :=
  match t.asDuration with
  | none => w
  | some d => (w.cancelByKind unit kind).schedule (now + d) kind unit

/-- The loop of `next_deadline` over the heap: the first entry that is not stale, and the heap less
the stale ones before it. -/
def peekLoop (entries : Table Nat TimerEntry) : List (Nat × Nat) → Option Nat × List (Nat × Nat)
  | [] => (none, [])
  | (deadline, id) :: heap =>
    match entries.get id with
    | some e => (some e.deadline, (deadline, id) :: heap)
    | none => peekLoop entries heap

def nextDeadline (w : TimerWheel) : Option Nat × TimerWheel :=
  let r := peekLoop w.entries w.heap
  (r.1, { w with heap := r.2 })

/-- The loop of `pop_due` over the heap, earliest deadline first. -/
def popLoop (now : Nat) : List (Nat × Nat) → Table Nat TimerEntry →
    List TimerEntry × List (Nat × Nat) × Table Nat TimerEntry
  | [], entries => ([], [], entries)
  | (deadline, id) :: heap, entries =>
    if now < deadline then ([], (deadline, id) :: heap, entries)
    else match entries.get id with
      | none => popLoop now heap entries
      | some e =>
        let r := popLoop now heap (entries.remove id)
        (e :: r.1, r.2)

def popDue (w : TimerWheel) (now : Nat) : List TimerEntry × TimerWheel :=
  let r := popLoop now w.heap w.entries
  (r.1, { w with heap := r.2.1, entries := r.2.2 })

def hasServiceTimers (w : TimerWheel) : Bool :=
  w.entries.keys.any fun id ↦ (w.entries.get id).any fun e ↦ match e.kind with
    | .calendarElapse _ | .monotonicElapse => true
    | _ => false

/-- The entry is scheduled and neither cancelled nor popped. -/
def Live (w : TimerWheel) (e : TimerEntry) : Prop := w.entries.get e.id = some e

/-- Some live entry has this unit and kind. -/
def Armed (w : TimerWheel) (unit : Name) (kind : TimerKind) : Prop :=
  ∃ id e, w.entries.get id = some e ∧ e.unit = unit ∧ e.kind = kind

variable {w : TimerWheel} {unit other : Name} {kind kind' : TimerKind} {deadline now : Nat}

/-- No entry has an id that is still to be given out. -/
def Wf (w : TimerWheel) : Prop := ∀ id e, w.entries.get id = some e → id ≤ w.nextId

theorem wf_empty : ({} : TimerWheel).Wf := fun _ _ h ↦ by cases h

theorem armed_empty : ¬ ({} : TimerWheel).Armed unit kind := fun ⟨_, _, h, _⟩ ↦ by cases h

theorem armed_schedule : (w.schedule deadline kind unit).Armed unit kind :=
  ⟨w.nextId + 1, _, Table.get_insert_self, rfl, rfl⟩

theorem Wf.schedule (h : w.Wf) : (w.schedule deadline kind unit).Wf := by
  intro id e he
  simp only [TimerWheel.schedule, Table.get_insert] at he ⊢
  split at he
  · omega
  · exact Nat.le_succ_of_le (h id e he)

theorem Armed.schedule (h : w.Armed unit kind) (hw : w.Wf) :
    (w.schedule deadline kind' other).Armed unit kind := by
  obtain ⟨id, e, he, hu, hk⟩ := h
  refine ⟨id, e, ?_, hu, hk⟩
  have hne : id ≠ w.nextId + 1 := by
    have := hw id e he
    omega
  rw [TimerWheel.schedule, Table.get_insert, if_neg hne, he]

theorem armed_of_schedule (h : (w.schedule deadline kind' other).Armed unit kind) :
    (unit = other ∧ kind = kind') ∨ w.Armed unit kind := by
  obtain ⟨id, e, he, hu, hk⟩ := h
  simp only [TimerWheel.schedule, Table.get_insert] at he
  split at he
  · cases he
    exact .inl ⟨hu.symm, hk.symm⟩
  · exact .inr ⟨id, e, he, hu, hk⟩

theorem Wf.cancelByKind (h : w.Wf) : (w.cancelByKind unit kind).Wf := by
  intro id e he
  rw [TimerWheel.cancelByKind, Table.get_retain] at he
  exact h id e (Option.filter_eq_some_iff.mp he).1

theorem Wf.cancelByUnit (h : w.Wf) : (w.cancelByUnit unit).Wf := by
  intro id e he
  rw [TimerWheel.cancelByUnit, Table.get_retain] at he
  exact h id e (Option.filter_eq_some_iff.mp he).1

theorem Armed.cancelByKind (h : w.Armed unit kind) (hne : ¬ (unit = other ∧ kind = kind')) :
    (w.cancelByKind other kind').Armed unit kind := by
  obtain ⟨id, e, he, rfl, rfl⟩ := h
  refine ⟨id, e, ?_, rfl, rfl⟩
  rw [TimerWheel.cancelByKind, Table.get_retain, he, Option.filter_eq_some_iff]
  exact ⟨rfl, by simpa [imp_iff_not_or] using hne⟩

theorem armed_of_cancelByKind (h : (w.cancelByKind other kind').Armed unit kind) :
    w.Armed unit kind := by
  obtain ⟨id, e, he, hu, hk⟩ := h
  rw [TimerWheel.cancelByKind, Table.get_retain] at he
  exact ⟨id, e, (Option.filter_eq_some_iff.mp he).1, hu, hk⟩

theorem Armed.cancelByUnit (h : w.Armed unit kind) (hne : unit ≠ other) :
    (w.cancelByUnit other).Armed unit kind := by
  obtain ⟨id, e, he, rfl, hk⟩ := h
  refine ⟨id, e, ?_, rfl, hk⟩
  rw [TimerWheel.cancelByUnit, Table.get_retain, he, Option.filter_eq_some_iff]
  exact ⟨rfl, by simpa using hne⟩

theorem armed_of_cancelByUnit (h : (w.cancelByUnit other).Armed unit kind) : w.Armed unit kind := by
  obtain ⟨id, e, he, hu, hk⟩ := h
  rw [TimerWheel.cancelByUnit, Table.get_retain] at he
  exact ⟨id, e, (Option.filter_eq_some_iff.mp he).1, hu, hk⟩

/-- Between `v` and `v'` no restart delay was armed. -/
structure NoDelay (v v' : TimerWheel) : Prop where
  wf : v.Wf → v'.Wf
  delay : ∀ {unit}, v'.Armed unit .restartDelay → v.Armed unit .restartDelay

/-- Between `v` and `v'` no deadline of a service was armed. -/
structure NoService (v v' : TimerWheel) : Prop where
  wf : v.Wf → v'.Wf
  service : ∀ {unit kind}, kind.service → v'.Armed unit kind → v.Armed unit kind

/-- Between `v` and `v'` no elapse of a timer unit was armed. -/
def NoElapse (v v' : TimerWheel) : Prop :=
  ∀ id e, e.kind.service = false → v'.entries.get id = some e → v.entries.get id = some e

/-- Moreover no timer was lost but for one of the same unit and kind, and no elapse was armed. -/
structure Extends (v v' : TimerWheel) : Prop extends NoDelay v v' where
  armed : v.Wf → ∀ {unit kind}, v.Armed unit kind → v'.Armed unit kind
  elapse : v.NoElapse v'

variable {v v' v'' : TimerWheel}

theorem NoDelay.refl : v.NoDelay v := ⟨fun h ↦ h, fun h ↦ h⟩

theorem NoDelay.trans (h : v.NoDelay v') (h' : v'.NoDelay v'') : v.NoDelay v'' :=
  ⟨fun hv ↦ h'.wf (h.wf hv), fun ha ↦ h.delay (h'.delay ha)⟩

theorem NoService.refl : v.NoService v := ⟨fun h ↦ h, fun _ h ↦ h⟩

theorem NoService.trans (h : v.NoService v') (h' : v'.NoService v'') : v.NoService v'' :=
  ⟨fun hv ↦ h'.wf (h.wf hv), fun hk ha ↦ h.service hk (h'.service hk ha)⟩

theorem NoService.noDelay (h : v.NoService v') : v.NoDelay v' := ⟨h.wf, h.service rfl⟩

theorem NoService.empty : v.NoService {} := ⟨fun _ ↦ wf_empty, fun _ ha ↦ absurd ha armed_empty⟩

theorem NoService.cancelByUnit : v.NoService (v.cancelByUnit unit) :=
  ⟨fun hv ↦ hv.cancelByUnit, fun _ ↦ armed_of_cancelByUnit⟩

theorem NoService.schedule (hk : kind.service = false) :
    v.NoService (v.schedule deadline kind unit) := by
  refine ⟨fun hv ↦ hv.schedule, fun hk' ha ↦ ?_⟩
  rcases armed_of_schedule ha with ⟨-, rfl⟩ | ha
  · rw [hk] at hk'
    cases hk'
  · exact ha

theorem NoElapse.refl : v.NoElapse v := fun _ _ _ he ↦ he

theorem NoElapse.trans (h : v.NoElapse v') (h' : v'.NoElapse v'') : v.NoElapse v'' :=
  fun id e hk he ↦ h id e hk (h' id e hk he)

theorem NoElapse.schedule (hk : kind.service) : v.NoElapse (v.schedule deadline kind unit) := by
  intro id e hk' he
  simp only [TimerWheel.schedule, Table.get_insert] at he
  split at he
  · cases he
    rw [hk] at hk'
    cases hk'
  · exact he

theorem NoElapse.cancelByKind : v.NoElapse (v.cancelByKind unit kind) := by
  intro id e _ he
  rw [TimerWheel.cancelByKind, Table.get_retain] at he
  exact (Option.filter_eq_some_iff.mp he).1

theorem NoElapse.cancelByUnit : v.NoElapse (v.cancelByUnit unit) := by
  intro id e _ he
  rw [TimerWheel.cancelByUnit, Table.get_retain] at he
  exact (Option.filter_eq_some_iff.mp he).1

theorem NoElapse.empty : v.NoElapse {} := fun _ _ _ he ↦ by cases he

theorem Extends.refl : v.Extends v := ⟨.refl, fun _ _ _ h ↦ h, .refl⟩

theorem Extends.trans (h : v.Extends v') (h' : v'.Extends v'') : v.Extends v'' :=
  ⟨h.toNoDelay.trans h'.toNoDelay, fun hv _ _ ha ↦ h'.armed (h.wf hv) (h.armed hv ha),
    h.elapse.trans h'.elapse⟩

theorem armed_arm {t : TimeSpan} (ht : t.asDuration.isSome) :
    (w.arm now unit kind t).Armed unit kind := by
  obtain ⟨d, hd⟩ := Option.isSome_iff_exists.mp ht
  rw [arm, hd]
  exact armed_schedule

theorem Extends.arm {t : TimeSpan} (hk : kind ≠ .restartDelay) (hs : kind.service) :
    w.Extends (w.arm now unit kind t) := by
  unfold TimerWheel.arm
  split
  · exact .refl
  · have hc : w.NoDelay (w.cancelByKind unit kind) :=
      ⟨fun hw ↦ hw.cancelByKind, armed_of_cancelByKind⟩
    refine ⟨hc.trans ⟨fun hw ↦ hw.schedule, fun ha ↦ ?_⟩, fun hw u k ha ↦ ?_,
      NoElapse.cancelByKind.trans (.schedule hs)⟩
    · exact (armed_of_schedule ha).resolve_left fun h ↦ hk h.2.symm
    by_cases he : u = unit ∧ k = kind
    · rw [he.1, he.2]
      exact armed_schedule
    · exact (ha.cancelByKind he).schedule hw.cancelByKind

theorem armed_of_arm {t : TimeSpan} (h : (w.arm now other kind' t).Armed unit kind) :
    w.Armed unit kind ∨ (unit = other ∧ kind = kind') := by
  unfold TimerWheel.arm at h
  split at h
  · exact .inl h
  · rcases armed_of_schedule h with h | h
    · exact .inr h
    · exact .inl (armed_of_cancelByKind h)

theorem get_popLoop (heap : List (Nat × Nat)) (entries : Table Nat TimerEntry) {id : Nat}
    {e : TimerEntry} (h : entries.get id = some e) :
    e ∈ (popLoop now heap entries).1 ∨ (popLoop now heap entries).2.2.get id = some e := by
  induction heap generalizing entries with
  | nil => exact .inr h
  | cons p heap ih =>
    obtain ⟨d, i⟩ := p
    unfold popLoop
    split
    · exact .inr h
    · split
      · exact ih entries h
      · next e' he' =>
        by_cases hi : id = i
        · subst hi
          rw [h] at he'
          cases he'
          exact .inl (List.mem_cons_self ..)
        · rcases ih (entries.remove i) (by rwa [Table.get_remove, if_neg hi]) with h' | h'
          · exact .inl (List.mem_cons_of_mem _ h')
          · exact .inr h'

theorem popLoop_get (heap : List (Nat × Nat)) (entries : Table Nat TimerEntry) {id : Nat}
    {e : TimerEntry} (h : (popLoop now heap entries).2.2.get id = some e) :
    entries.get id = some e := by
  induction heap generalizing entries with
  | nil => exact h
  | cons p heap ih =>
    obtain ⟨d, i⟩ := p
    unfold popLoop at h
    split at h
    · exact h
    · split at h
      · exact ih entries h
      · have h' := ih (entries.remove i) h
        rw [Table.get_remove] at h'
        split at h'
        · cases h'
        · exact h'

theorem NoElapse.popDue : v.NoElapse (v.popDue now).2 :=
  fun _ _ _ he ↦ popLoop_get v.heap v.entries he

theorem NoService.popDue : v.NoService (v.popDue now).2 :=
  ⟨fun hv id e he ↦ hv id e (popLoop_get v.heap v.entries he),
    fun _ ⟨id, e, he, hu, hk⟩ ↦ ⟨id, e, popLoop_get v.heap v.entries he, hu, hk⟩⟩

theorem popLoop_mem (heap : List (Nat × Nat)) (entries : Table Nat TimerEntry)
    {e : TimerEntry} (h : e ∈ (popLoop now heap entries).1) :
    ∃ id, entries.get id = some e := by
  induction heap generalizing entries with
  | nil => cases h
  | cons p heap ih =>
    obtain ⟨d, i⟩ := p
    unfold popLoop at h
    split at h
    · cases h
    · split at h
      · exact ih entries h
      · next e' he' =>
        rcases List.mem_cons.mp h with rfl | h
        · exact ⟨i, he'⟩
        · obtain ⟨id, hid⟩ := ih (entries.remove i) h
          rw [Table.get_remove] at hid
          split at hid
          · cases hid
          · exact ⟨id, hid⟩

/-- Popping neither loses nor invents an armed timer. -/
theorem armed_popDue (h : w.Armed unit kind) :
    (w.popDue now).2.Armed unit kind ∨
      ∃ e ∈ (w.popDue now).1, e.unit = unit ∧ e.kind = kind := by
  obtain ⟨id, e, he, hu, hk⟩ := h
  rcases get_popLoop w.heap w.entries he with h | h
  · exact .inr ⟨e, h, hu, hk⟩
  · exact .inl ⟨id, e, h, hu, hk⟩

theorem popDue_armed (h : (w.popDue now).2.Armed unit kind) : w.Armed unit kind := by
  obtain ⟨id, e, he, hu, hk⟩ := h
  exact ⟨id, e, popLoop_get w.heap w.entries he, hu, hk⟩

theorem popDue_mem {e : TimerEntry} (h : e ∈ (w.popDue now).1) : w.Armed e.unit e.kind := by
  obtain ⟨id, hid⟩ := popLoop_mem w.heap w.entries h
  exact ⟨id, e, hid, rfl, rfl⟩

end TimerWheel

end Rystemd
