import Rystemd.Totality

namespace Rystemd

/-- Between `v` and `v'` the wheel stayed well-formed and no elapse of a timer unit was armed. -/
structure TimerWheel.Mild (v v' : TimerWheel) : Prop where
  wf : v.Wf → v'.Wf
  elapse : v.NoElapse v'

namespace TimerWheel

variable {v v' v'' : TimerWheel} {unit other : Name} {kind kind' : TimerKind} {d d' : Nat}

theorem Mild.refl : v.Mild v := ⟨id, .refl⟩

theorem Mild.trans (h : v.Mild v') (h' : v'.Mild v'') : v.Mild v'' :=
  ⟨h'.wf ∘ h.wf, h.elapse.trans h'.elapse⟩

theorem Mild.of_eq (h : v' = v) : v.Mild v' := h ▸ .refl

theorem Mild.schedule (hk : kind.service) : v.Mild (v.schedule d kind unit) :=
  ⟨fun hv ↦ hv.schedule, .schedule hk⟩

/-- A live entry says so. -/
def Pending (v : TimerWheel) (unit : Name) (kind : TimerKind) (deadline : Nat) : Prop :=
  ∃ id e, v.entries.get id = some e ∧ e.unit = unit ∧ e.kind = kind ∧ e.deadline = deadline

theorem Pending.armed (h : v.Pending unit kind d) : v.Armed unit kind := by
  obtain ⟨id, e, he, hu, hk, -⟩ := h
  exact ⟨id, e, he, hu, hk⟩

theorem Armed.pending (h : v.Armed unit kind) : ∃ d, v.Pending unit kind d := by
  obtain ⟨id, e, he, hu, hk⟩ := h
  exact ⟨e.deadline, id, e, he, hu, hk, rfl⟩

theorem NoElapse.pending (h : v.NoElapse v') (hk : kind.service = false)
    (hp : v'.Pending unit kind d) : v.Pending unit kind d := by
  obtain ⟨id, e, he, hu, rfl, hd⟩ := hp
  exact ⟨id, e, h id e hk he, hu, rfl, hd⟩

theorem not_pending_empty : ¬ ({} : TimerWheel).Pending unit kind d := fun ⟨_, _, he, _⟩ ↦ by
  cases he

theorem pending_cancelByUnit :
    (v.cancelByUnit other).Pending unit kind d ↔ unit ≠ other ∧ v.Pending unit kind d := by
  constructor
  · rintro ⟨id, e, he, hu, hk, hd⟩
    rw [cancelByUnit, Table.get_retain] at he
    obtain ⟨he, hne⟩ := Option.filter_eq_some_iff.mp he
    rw [hu, decide_eq_true_eq] at hne
    exact ⟨hne, id, e, he, hu, hk, hd⟩
  · rintro ⟨hne, id, e, he, hu, hk, hd⟩
    refine ⟨id, e, ?_, hu, hk, hd⟩
    rw [cancelByUnit, Table.get_retain, he, Option.filter_eq_some_iff]
    exact ⟨rfl, by simpa [hu] using hne⟩

theorem pending_schedule (hv : v.Wf) : (v.schedule d' kind' other).Pending unit kind d ↔
    (unit = other ∧ kind = kind' ∧ d = d') ∨ v.Pending unit kind d := by
  constructor
  · rintro ⟨id, e, he, hu, hk, hd⟩
    simp only [schedule, Table.get_insert] at he
    split at he
    · cases he
      exact .inl ⟨hu.symm, hk.symm, hd.symm⟩
    · exact .inr ⟨id, e, he, hu, hk, hd⟩
  · rintro (⟨rfl, rfl, rfl⟩ | ⟨id, e, he, hu, hk, hd⟩)
    · exact ⟨v.nextId + 1, _, Table.get_insert_self, rfl, rfl, rfl⟩
    · refine ⟨id, e, ?_, hu, hk, hd⟩
      have hle := hv id e he
      rw [schedule, Table.get_insert, if_neg (by omega), he]

end TimerWheel

namespace Manager

/-- The monotonic elapse that is armed besides a calendar one. -/
def armedMonotonic (w : World) (m : Manager) (tc : TimerConfig) (target : Name) : Option Nat :=
  (nextMonotonic w m tc target).filter (w.now ≤ ·)

def armMonotonic (name : Name) (wheel : TimerWheel) : Option Nat → TimerWheel
  | none => wheel
  | some due => wheel.schedule due .monotonicElapse name

/-- What `list-timers` shows of an armed timer. -/
def nextDisplay (w : World) (calendar : Option (Nat × Nat)) : Option Nat → Option Nat
  | none => calendar.map fun c ↦ c.1 * second
  | some due => minOf (calendar.map fun c ↦ c.1 * second) (w.epoch * second + (due - w.now))

/-- What `rearm_timer` may have done to a timer unit. -/
inductive Rearmed (w : World) (m : Manager) (name : Name) : Manager → Prop
  | disarmed : (m.shuttingDown = false → ∃ u, m.units.get name = some u ∧ u.timerCfg = none) →
      Rearmed w m name { m with wheel := m.wheel.cancelByUnit name }
  | armed {u : Unit} {tc : TimerConfig} (st : TimerState) : m.shuttingDown = false →
      m.units.get name = some u → u.timerCfg = some tc →
      st.nextDisplay = nextDisplay w (nextCalendar w tc.onCalendar)
        (m.armedMonotonic w tc u.activatedUnit) →
      Rearmed w m name { m with
        wheel := armMonotonic name (armCalendar w name (m.wheel.cancelByUnit name)
          (nextCalendar w tc.onCalendar)) (m.armedMonotonic w tc u.activatedUnit)
        units := m.units.modify name fun u ↦ { u with timer := some st } }

/-- The timer unit has this elapse to arm. -/
def Arms (w : World) (m : Manager) (name : Name) (kind : TimerKind) (deadline : Nat) : Prop :=
  ∃ u tc, m.shuttingDown = false ∧ m.units.get name = some u ∧ u.timerCfg = some tc ∧
    ((∃ epoch i, nextCalendar w tc.onCalendar = some (epoch, i) ∧ kind = .calendarElapse i ∧
        deadline = w.now + max (epoch - w.epoch) 1 * second) ∨
      (kind = .monotonicElapse ∧ m.armedMonotonic w tc u.activatedUnit = some deadline))

variable {w : World} {m m' : Manager} {name n : Name} {kind : TimerKind} {d : Nat}

theorem rearmTimer_cases (h : m.rearmTimer w name = some m') : Rearmed w m name m' := by
  unfold rearmTimer at h
  extract_lets wheel at h
  split at h
  · next hs =>
    cases h
    exact .disarmed fun hs' ↦ by rw [hs] at hs'; cases hs'
  · next hs =>
    obtain ⟨u, hu, h⟩ := Option.bind_eq_some_iff.mp h
    split at h
    · next htc =>
      cases h
      exact .disarmed fun _ ↦ ⟨u, hu, htc⟩
    · next tc htc =>
      extract_lets st calendar wheel' display at h
      have harmed (x) (hx : m.armedMonotonic w tc u.activatedUnit = x) :
          m' = { m with
            wheel := armMonotonic name wheel' x
            units := m.units.modify name fun u ↦
              { u with timer := some { st with nextDisplay := nextDisplay w calendar x } } } →
          Rearmed w m name m' := by
        rintro rfl
        rw [← hx]
        exact .armed _ (eq_false_of_ne_true hs) hu htc rfl
      unfold armedMonotonic at harmed
      cases hm : nextMonotonic w m tc u.activatedUnit with
      | none =>
        rw [hm] at h harmed
        cases h
        exact harmed none rfl rfl
      | some due =>
        rw [hm] at h harmed
        by_cases hdue : w.now ≤ due
        · simp only [hdue, if_true] at h
          cases h
          exact harmed (some due) (by simp [hdue]) rfl
        · simp only [hdue, if_false] at h
          cases h
          exact harmed none (by rw [Option.filter_some, if_neg (by simpa using hdue)]) rfl

namespace Rearmed

theorem units (h : Rearmed w m name m') (n : Name) :
    (m'.units.get n).map Unit.core = (m.units.get n).map Unit.core := by
  cases h with
  | disarmed => rfl
  | armed st =>
    rw [Table.get_modify]
    split
    · rw [Option.map_map]
      rfl
    · rfl

theorem bootInstant (h : Rearmed w m name m') : m'.bootInstant = m.bootInstant := by
  cases h <;> rfl

theorem shuttingDown (h : Rearmed w m name m') : m'.shuttingDown = m.shuttingDown := by
  cases h <;> rfl

theorem wf (h : Rearmed w m name m') (hw : m.wheel.Wf) : m'.wheel.Wf := by
  cases h with
  | disarmed => exact hw.cancelByUnit
  | @armed u tc =>
    have hcalendar : (armCalendar w name (m.wheel.cancelByUnit name)
        (nextCalendar w tc.onCalendar)).Wf := (Silent.armCalendar_noService _).wf hw.cancelByUnit
    unfold armMonotonic
    split
    · exact hcalendar
    · exact hcalendar.schedule

/-- What is pending for the unit is what it has to arm, and for the others what it was. -/
theorem pending (h : Rearmed w m name m') (hw : m.wheel.Wf) :
    m'.wheel.Pending n kind d ↔
      (n ≠ name ∧ m.wheel.Pending n kind d) ∨ (n = name ∧ m.Arms w name kind d) := by
  cases h with
  | disarmed hoff =>
    rw [TimerWheel.pending_cancelByUnit, or_iff_left]
    rintro ⟨-, u, tc, hs, hu, htc, -⟩
    obtain ⟨v, hv, hnone⟩ := hoff hs
    rw [hu] at hv
    cases hv
    rw [htc] at hnone
    cases hnone
  | @armed u tc st hs hu htc _ =>
    have harms : m.Arms w name kind d ↔
        (∃ epoch i, nextCalendar w tc.onCalendar = some (epoch, i) ∧ kind = .calendarElapse i ∧
          d = w.now + max (epoch - w.epoch) 1 * second) ∨
        (kind = .monotonicElapse ∧ m.armedMonotonic w tc u.activatedUnit = some d) := by
      constructor
      · rintro ⟨u', tc', -, hu', htc', ha⟩
        obtain rfl : u = u' := Option.some.inj (hu.symm.trans hu')
        obtain rfl : tc = tc' := Option.some.inj (htc.symm.trans htc')
        exact ha
      · intro ha
        exact ⟨u, tc, hs, hu, htc, ha⟩
    have hcalendar : (armCalendar w name (m.wheel.cancelByUnit name)
        (nextCalendar w tc.onCalendar)).Wf := (Silent.armCalendar_noService _).wf hw.cancelByUnit
    have hc : (armCalendar w name (m.wheel.cancelByUnit name)
        (nextCalendar w tc.onCalendar)).Pending n kind d ↔
        (n ≠ name ∧ m.wheel.Pending n kind d) ∨ (n = name ∧ ∃ epoch i,
          nextCalendar w tc.onCalendar = some (epoch, i) ∧ kind = .calendarElapse i ∧
            d = w.now + max (epoch - w.epoch) 1 * second) := by
      cases hcal : nextCalendar w tc.onCalendar with
      | none => simp [armCalendar, TimerWheel.pending_cancelByUnit]
      | some c =>
        obtain ⟨epoch, i⟩ := c
        rw [armCalendar, TimerWheel.pending_schedule hw.cancelByUnit,
          TimerWheel.pending_cancelByUnit, or_comm]
        simp [and_assoc]
    rw [harms]
    cases hm : m.armedMonotonic w tc u.activatedUnit with
    | none =>
      rw [armMonotonic, hc]
      simp
    | some due =>
      rw [armMonotonic, TimerWheel.pending_schedule hcalendar, hc]
      grind

end Rearmed

/-- Two managers that are alike in all that `rearm_timer` reads. -/
structure AlikeForTimers (m m' : Manager) : Prop where
  units : ∀ n, (m'.units.get n).map Unit.core = (m.units.get n).map Unit.core
  bootInstant : m'.bootInstant = m.bootInstant
  shuttingDown : m'.shuttingDown = m.shuttingDown

namespace AlikeForTimers

theorem refl : AlikeForTimers m m := ⟨fun _ ↦ rfl, rfl, rfl⟩

theorem symm (h : AlikeForTimers m m') : AlikeForTimers m' m :=
  ⟨fun n ↦ (h.units n).symm, h.bootInstant.symm, h.shuttingDown.symm⟩

theorem get (h : AlikeForTimers m m') {u : Unit} (hu : m.units.get n = some u) :
    ∃ u', m'.units.get n = some u' ∧ u'.core = u.core := by
  have hn := h.units n
  rw [hu] at hn
  exact Option.map_eq_some_iff.mp hn

theorem nextMonotonic (h : AlikeForTimers m m') (tc : TimerConfig) (target : Name) :
    nextMonotonic w m' tc target = Manager.nextMonotonic w m tc target := by
  unfold Manager.nextMonotonic
  rw [h.bootInstant]
  cases hu : m.units.get target with
  | none =>
    have hn := h.units target
    rw [hu, Option.map_none, Option.map_eq_none_iff] at hn
    rw [hn]
  | some u =>
    obtain ⟨u', hu', hcore⟩ := h.get hu
    have hactive : u'.core.active = u.core.active := congrArg Unit.active hcore
    have henter : u'.core.activeEnter = u.core.activeEnter := congrArg Unit.activeEnter hcore
    change u'.active = u.active at hactive
    change u'.activeEnter = u.activeEnter at henter
    rw [hu']
    simp only [hactive, henter]

theorem armsOf (h : AlikeForTimers m m') (ha : m.Arms w name kind d) : m'.Arms w name kind d := by
  obtain ⟨u, tc, hs, hu, htc, ha⟩ := ha
  obtain ⟨u', hu', hcore⟩ := h.get hu
  have htc' : u'.core.timerCfg = u.core.timerCfg := congrArg Unit.timerCfg hcore
  have htarget : u'.core.activatedUnit = u.core.activatedUnit :=
    congrArg Unit.activatedUnit hcore
  change u'.timerCfg = u.timerCfg at htc'
  change u'.activatedUnit = u.activatedUnit at htarget
  refine ⟨u', tc, h.shuttingDown.trans hs, hu', htc'.trans htc, ha.imp_right fun ⟨hk, hm⟩ ↦ ⟨hk, ?_⟩⟩
  rw [htarget, ← hm, armedMonotonic, armedMonotonic, h.nextMonotonic]

theorem arms (h : AlikeForTimers m m') : m'.Arms w name kind d ↔ m.Arms w name kind d :=
  ⟨h.symm.armsOf, h.armsOf⟩

end AlikeForTimers

theorem Rearmed.alike (h : Rearmed w m name m') : AlikeForTimers m m' :=
  ⟨h.units, h.bootInstant, h.shuttingDown⟩

/-- The order in which units are re-armed does not matter, nor what the others have pending. -/
theorem rearmTimers_pending {names : List Name} (h : m.rearmTimers w names = some m')
    (hw : m.wheel.Wf) : m'.wheel.Pending n kind d ↔
      (n ∉ names ∧ m.wheel.Pending n kind d) ∨ (n ∈ names ∧ m.Arms w n kind d) := by
  induction names generalizing m with
  | nil =>
    cases h
    simp
  | cons name names ih =>
    obtain ⟨m₁, h₁, h⟩ := Option.bind_eq_some_iff.mp h
    have hr := rearmTimer_cases h₁
    rw [ih h (hr.wf hw), hr.pending hw, hr.alike.arms]
    by_cases hn : n = name
    · subst hn
      by_cases hmem : n ∈ names <;> simp [hmem]
    · simp [hn]

end Manager

section Mild

open Manager

variable {w : World} {m m' : Manager} {name : Name} {out : Out} {c : Call} {kind : JobKind}

theorem Calm.mild (h : Calm m m') : m.wheel.Mild m'.wheel := ⟨h.wheel.wf, h.wheel.elapse⟩

theorem Ends.mild (h : Ends w name kind m out) : m.wheel.Mild out.1.wheel := by
  induction h with
  | waits hk => exact hk.toCalm.mild
  | fails msg rest hk _ => exact hk.toCalm.mild
  | completes hp _ ho _ => exact hp.toCalm.mild.trans (.of_eq (JobsOnly.completeJob ho).wheel)
  | stops hp ho => exact hp.toCalm.mild.trans (.of_eq (JobsOnly.completeJob ho).wheel)
  | spawns idx main hk _ _ _ _ _ _ ih => exact hk.toCalm.mild.trans ih

theorem ActiveExit.mild (h : ActiveExit w name m out) : m.wheel.Mild out.1.wheel := by
  cases h with
  | limit hp | failed hp => exact hp.toCalm.mild
  | restart delay hk _ => exact hk.toCalm.mild.trans (.schedule rfl)
  | ended hp _ ho => exact hp.toCalm.mild.trans (.of_eq (JobsOnly.completeJob ho).wheel)

theorem mainExit_mild {exit : ChildExit} (h : m.mainExit w name exit = some out) :
    m.wheel.Mild out.1.wheel := by
  obtain ⟨u, -, h⟩ := mainExit_ends h
  cases h with
  | stopped _ he => exact he.mild
  | vanished _ _ hp => exact hp.toCalm.mild
  | fails _ hk => exact hk.toCalm.mild
  | active _ _ he => exact he.mild

theorem handleControlExit_mild {exit : ChildExit} (h : m.handleControlExit w name exit = some out) :
    m.wheel.Mild out.1.wheel := by
  rcases handleControlExit_cases h with ⟨-, he⟩ | ⟨-, m₀, rfl | ⟨pid, rfl⟩, he⟩ | ⟨-, rfl⟩ | rfl
  · exact he.mild
  · exact he.mild
  · exact he.mild
  · exact .refl
  · exact .refl

theorem doStart_mild (h : m.doStart w name = some out) : m.wheel.Mild out.1.wheel := by
  obtain ⟨m₁, ht, -, he⟩ := (doStart_begins h).ends
  exact ht.toCalm.mild.trans he.mild

theorem doStop_mild (h : m.doStop w name = some out) : m.wheel.Mild out.1.wheel := by
  obtain ⟨m₁, hp, he⟩ := doStop_begins h
  exact hp.toCalm.mild.trans he.mild

/-- Only a re-arm has an elapse pending that was not. -/
theorem exec_mild (h : exec w c m = some out) (hc : c.rearms = false) :
    m.wheel.Mild out.1.wheel := by
  have rests {c₀ : Call} {m₁ : Manager} (hc : c₀.rearms = false) (hr : Rests c₀ m m₁) :
      m.wheel.Mild m₁.wheel := ⟨hr.wheel.wf, hr.elapse hc⟩
  cases exec_acts h with
  | rests hr => exact rests hc hr
  | pops => exact ⟨TimerWheel.NoService.popDue.wf, .popDue⟩
  | shuts hs =>
    rw [Manager.shutdown, if_neg (by simp [hs])]
    exact ⟨fun _ ↦ TimerWheel.wf_empty, .empty⟩
  | loads => cases hc
  | removes device => exact .refl
  | revives hp | resets _ hp => exact hp.toCalm.mild
  | begins _ _ _ _ _ hr ho => exact (rests rfl hr).trans (doStart_mild ho)
  | stops _ _ _ hj ho => exact (TimerWheel.Mild.of_eq hj.wheel).trans (doStop_mild ho)
  | reloads ho => exact (reload_ends ho .restart).mild
  | runs hc' hr _ ho => exact (rests hc hr).trans (.of_eq (JobsOnly.completeJob ho).wheel)
  | fails _ hj => exact .of_eq hj.wheel
  | restarts _ _ ho =>
    have hd := doStart_mild ho
    exact hd
  | expires _ ho => exact (Keeps.killTree.ends (finalizeStop_ends ho)).mild
  | exits ho =>
    cases processExit_cases ho with
    | ignored | main => exact .refl
    | control _ _ _ _ h =>
      have hd := handleControlExit_mild h
      exact hd
  | mainExits ho => exact mainExit_mild ho

end Mild

end Rystemd
