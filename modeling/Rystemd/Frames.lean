import Rystemd.Engine

namespace Rystemd

namespace Manager

def activeOf (m : Manager) (name : Name) : Option ActiveState := (m.units.get name).map Unit.active

/-- The kind and the file of a unit, which only a reload changes. -/
def setupOf (m : Manager) (name : Name) : Option (UnitKind × Option UnitFile) :=
  (m.units.get name).map fun u ↦ (u.kind, u.file)

end Manager

/-- Between `m` and `m'` no job changed, and no unit but `name`. -/
structure Local (name : Name) (m m' : Manager) : Prop where
  jobs : m'.jobs = m.jobs
  unitJob : m'.unitJob = m.unitJob
  nextJob : m'.nextJob = m.nextJob
  completedJobs : m'.completedJobs = m.completedJobs
  shuttingDown : m'.shuttingDown = m.shuttingDown
  others : ∀ n, n ≠ name → m'.units.get n = m.units.get n
  setup : m'.setupOf name = m.setupOf name
  restartOk : (∀ u ∈ m.units.get name, u.RestartOk) → ∀ u ∈ m'.units.get name, u.RestartOk

def Effect.isSpawn : Effect → Bool
  | .spawn .. => true
  | _ => false

/-- Nothing was done to the outside but that signals were sent. -/
def Signals (m m' : Manager) : Prop :=
  ∃ es, m'.kernel.effects = es ++ m.kernel.effects ∧ ∀ e ∈ es, e.isSpawn = false

/-- Between `m` and `m'` no process came or went, and no timer was lost. -/
structure Calm (m m' : Manager) : Prop where
  wheel : m.wheel.Extends m'.wheel
  pidUnit : m'.pidUnit = m.pidUnit
  children : m'.kernel.children = m.kernel.children
  signals : Signals m m'

namespace Unit

/-- The processes that the unit knows as its own. -/
def procs (u : Unit) : Option Pid × Option Pid × Option Pid × Option ControlCommand :=
  (u.mainPid, u.groupPid, u.controlPid, u.controlCommand)

/-- The unit `u'` knows no process that `u` does not know. -/
structure Forgets (u u' : Unit) : Prop where
  mainPid : u'.mainPid = u.mainPid ∨ u'.mainPid = none
  controlPid : u'.controlPid = u.controlPid ∨ u'.controlPid = none
  controlCommand : u'.controlCommand = u.controlCommand ∨ u'.controlCommand = none

variable {u u' u'' : Unit}

theorem Forgets.of_procs (h : u'.procs = u.procs) : u.Forgets u' := by
  simp only [procs, Prod.mk.injEq] at h
  exact ⟨.inl h.1, .inl h.2.2.1, .inl h.2.2.2⟩

theorem Forgets.trans (h : u.Forgets u') (h' : u'.Forgets u'') : u.Forgets u'' where
  mainPid := h'.mainPid.elim (fun he ↦ by rw [he]; exact h.mainPid) .inr
  controlPid := h'.controlPid.elim (fun he ↦ by rw [he]; exact h.controlPid) .inr
  controlCommand := h'.controlCommand.elim (fun he ↦ by rw [he]; exact h.controlCommand) .inr

end Unit

/-- Nothing happened but to the unit. A deadline of a service that is new is one of the unit. -/
structure Touches (name : Name) (m m' : Manager) : Prop extends Local name m m', Calm m m' where
  timers : ∀ n k, k.service → m'.wheel.Armed n k →
    m.wheel.Armed n k ∨ (n = name ∧ (m.units.get name).isSome)
  forgets : ∀ u', m'.units.get name = some u' → ∃ u, m.units.get name = some u ∧ u.Forgets u'

/-- Moreover the unit is in the same active state and knows the same processes. -/
structure Keeps (name : Name) (m m' : Manager) : Prop extends Touches name m m' where
  active : m'.activeOf name = m.activeOf name
  procs : (m'.units.get name).map Unit.procs = (m.units.get name).map Unit.procs

/-- Moreover the unit is in the active state `s`. -/
structure Puts (name : Name) (s : ActiveState) (m m' : Manager) : Prop
    extends Touches name m m' where
  active : m'.activeOf name = some s

variable {w : World} {name : Name} {m m' m'' : Manager} {s : ActiveState} {out : Out}
  {kind : JobKind}

namespace Local

theorem refl : Local name m m := ⟨rfl, rfl, rfl, rfl, rfl, fun _ _ ↦ rfl, rfl, id⟩

theorem trans (h : Local name m m') (h' : Local name m' m'') : Local name m m'' :=
  ⟨h'.jobs.trans h.jobs, h'.unitJob.trans h.unitJob, h'.nextJob.trans h.nextJob,
    h'.completedJobs.trans h.completedJobs, h'.shuttingDown.trans h.shuttingDown,
    fun n hn ↦ (h'.others n hn).trans (h.others n hn), h'.setup.trans h.setup,
    h'.restartOk ∘ h.restartOk⟩

theorem activeOf_ne (h : Local name m m') {n : Name} (hn : n ≠ name) :
    m'.activeOf n = m.activeOf n := by
  rw [Manager.activeOf, h.others n hn, Manager.activeOf]

theorem isSome (h : Local name m m') (n : Name) :
    (m'.units.get n).isSome = (m.units.get n).isSome := by
  by_cases hn : n = name
  · subst hn
    have := congrArg Option.isSome h.setup
    simpa [Manager.setupOf] using this
  · rw [h.others n hn]

theorem serviceOf_eq (h : Local name m m') :
    (m'.units.get name).bind Unit.serviceCfg = (m.units.get name).bind Unit.serviceCfg := by
  have hs := congrArg (Option.bind · fun s ↦ s.2.bind UnitFile.service) h.setup
  rwa [Manager.setupOf, Manager.setupOf, Option.bind_map, Option.bind_map] at hs

theorem contains (h : Local name m m') (n : Name) : m'.units.contains n = m.units.contains n :=
  h.isSome n

theorem modifyUnit {f : Unit → Unit} (hf : ∀ u, (f u).kind = u.kind ∧ (f u).file = u.file)
    (hr : ∀ u, u.RestartOk → (f u).RestartOk) : Local name m (m.modifyUnit name f) where
  jobs := rfl
  unitJob := rfl
  nextJob := rfl
  completedJobs := rfl
  shuttingDown := rfl
  others n hn := by simp [Manager.modifyUnit, Table.get_modify, hn]
  setup := by
    rw [Manager.setupOf, Manager.modifyUnit, Table.get_modify, if_pos rfl, Option.map_map]
    congr 1
    funext u
    rw [Function.comp_apply, (hf u).1, (hf u).2]
  restartOk h u' hu' := by
    rw [Manager.modifyUnit, Table.get_modify, if_pos rfl] at hu'
    obtain ⟨u, hu, rfl⟩ := Option.map_eq_some_iff.mp hu'
    exact hr u (h u hu)

end Local

theorem setActive_setup (now : Nat) (s : ActiveState) (sub : SubState) (r : UnitResult) (u : Unit) :
    (u.setActive now s sub r).kind = u.kind ∧ (u.setActive now s sub r).file = u.file := by
  unfold Unit.setActive
  cases s <;> dsimp only <;> (try split) <;> exact ⟨rfl, rfl⟩

@[simp] theorem setActive_active (now : Nat) (s : ActiveState) (sub : SubState) (r : UnitResult)
    (u : Unit) : (u.setActive now s sub r).active = s := by
  unfold Unit.setActive
  cases s <;> dsimp only <;> (try split) <;> rfl

@[simp] theorem setActive_sub (now : Nat) (s : ActiveState) (sub : SubState) (r : UnitResult)
    (u : Unit) : (u.setActive now s sub r).sub = sub := by
  unfold Unit.setActive
  cases s <;> dsimp only <;> (try split) <;> rfl

theorem setActive_restartOk (now : Nat) {s : ActiveState} {sub : SubState} (r : UnitResult) (u : Unit)
    (h : sub = .autoRestart → s = .activating) : (u.setActive now s sub r).RestartOk := by
  simpa [Unit.RestartOk] using h

theorem activeOf_modifyUnit {f : Unit → Unit} :
    (m.modifyUnit name f).activeOf name = (m.units.get name).map fun u ↦ (f u).active := by
  simp only [Manager.activeOf, Manager.modifyUnit, Table.get_modify, if_pos, Option.map_map]
  rfl

theorem activeOf_eq {u : Unit} (hu : m.units.get name = some u) :
    m.activeOf name = some u.active := by
  rw [Manager.activeOf, hu, Option.map_some]

theorem isSome_of_activeOf (h : m.activeOf name = some s) : (m.units.get name).isSome := by
  obtain ⟨u, hu, -⟩ := Option.map_eq_some_iff.mp h
  rw [hu]
  rfl

theorem Signals.refl : Signals m m := ⟨[], rfl, by simp⟩

theorem Signals.trans (h : Signals m m') (h' : Signals m' m'') : Signals m m'' := by
  obtain ⟨es, he, hs⟩ := h
  obtain ⟨es', he', hs'⟩ := h'
  refine ⟨es' ++ es, by rw [he', he, List.append_assoc], fun e hmem ↦ ?_⟩
  rcases List.mem_append.mp hmem with hmem | hmem
  · exact hs' e hmem
  · exact hs e hmem

theorem Signals.of_eq (h : m'.kernel = m.kernel) : Signals m m' := ⟨[], by rw [h]; rfl, by simp⟩

theorem Signals.killTree {sig : Signal} : Signals m (m.killTree name sig) := by
  refine ⟨_, rfl, fun e he ↦ ?_⟩
  rw [Option.mem_toList] at he
  unfold Manager.killEffect at he
  split at he
  · cases he; rfl
  · obtain ⟨group, -, rfl⟩ := Option.map_eq_some_iff.mp he
    rfl

namespace Calm

theorem refl : Calm m m := ⟨.refl, rfl, rfl, .refl⟩

theorem trans (h : Calm m m') (h' : Calm m' m'') : Calm m m'' :=
  ⟨h.wheel.trans h'.wheel, h'.pidUnit.trans h.pidUnit, h'.children.trans h.children,
    h.signals.trans h'.signals⟩

theorem of_eq (hw : m'.wheel = m.wheel) (hp : m'.pidUnit = m.pidUnit) (hk : m'.kernel = m.kernel) :
    Calm m m' where
  wheel := by rw [hw]; exact .refl
  pidUnit := hp
  children := by rw [hk]
  signals := .of_eq hk

end Calm

theorem Touches.refl : Touches name m m :=
  ⟨.refl, .refl, fun _ _ _ h ↦ .inl h, fun u hu ↦ ⟨u, hu, .of_procs rfl⟩⟩

theorem Touches.trans (h : Touches name m m') (h' : Touches name m' m'') : Touches name m m'' where
  toLocal := h.toLocal.trans h'.toLocal
  toCalm := h.toCalm.trans h'.toCalm
  timers n k hk ha := by
    rcases h'.timers n k hk ha with ha | ⟨hn, hs⟩
    · exact h.timers n k hk ha
    · exact .inr ⟨hn, by rwa [h.isSome] at hs⟩
  forgets u'' hu'' := by
    obtain ⟨u', hu', hf'⟩ := h'.forgets u'' hu''
    obtain ⟨u, hu, hf⟩ := h.forgets u' hu'
    exact ⟨u, hu, hf.trans hf'⟩

theorem Touches.modifyUnit {f : Unit → Unit} (hf : ∀ u, (f u).kind = u.kind ∧ (f u).file = u.file)
    (hr : ∀ u, u.RestartOk → (f u).RestartOk) (hp : ∀ u : Unit, u.Forgets (f u)) :
    Touches name m (m.modifyUnit name f) where
  toLocal := .modifyUnit hf hr
  toCalm := .of_eq rfl rfl rfl
  timers _ _ _ ha := .inl ha
  forgets u' hu' := by
    rw [Manager.modifyUnit, Table.get_modify, if_pos rfl] at hu'
    obtain ⟨u, hu, rfl⟩ := Option.map_eq_some_iff.mp hu'
    exact ⟨u, hu, hp u⟩

theorem setActive_procs (now : Nat) (s : ActiveState) (sub : SubState) (r : UnitResult) (u : Unit) :
    (u.setActive now s sub r).procs = u.procs := by
  unfold Unit.setActive
  cases s <;> dsimp only <;> (try split) <;> rfl

namespace Keeps

theorem refl : Keeps name m m := ⟨.refl, rfl, rfl⟩

theorem trans (h : Keeps name m m') (h' : Keeps name m' m'') : Keeps name m m'' :=
  ⟨h.toTouches.trans h'.toTouches, h'.active.trans h.active, h'.procs.trans h.procs⟩

theorem puts (h : Keeps name m m') (h' : Puts name s m' m'') : Puts name s m m'' :=
  ⟨h.toTouches.trans h'.toTouches, h'.active⟩

theorem modifyUnit {f : Unit → Unit}
    (hf : ∀ u, ((f u).kind = u.kind ∧ (f u).file = u.file) ∧ (f u).active = u.active ∧
      (f u).procs = u.procs ∧ ((f u).sub = .autoRestart → u.sub = .autoRestart)) :
    Keeps name m (m.modifyUnit name f) where
  toTouches := .modifyUnit (fun u ↦ (hf u).1)
    (fun u hu hs ↦ by
      rw [(hf u).2.1]
      exact hu ((hf u).2.2.2 hs))
    fun u ↦ .of_procs (hf u).2.2.1
  active := by
    rw [activeOf_modifyUnit, Manager.activeOf]
    congr 1
    funext u
    exact (hf u).2.1
  procs := by
    rw [Manager.modifyUnit, Table.get_modify, if_pos rfl, Option.map_map]
    congr 1
    funext u
    exact (hf u).2.2.1

/-- What changes no unit and no job. -/
theorem of_calm (hu : m'.units = m.units) (hj : m'.jobs = m.jobs) (hx : m'.unitJob = m.unitJob)
    (hn : m'.nextJob = m.nextJob) (hc : m'.completedJobs = m.completedJobs)
    (hs : m'.shuttingDown = m.shuttingDown) (h : Calm m m')
    (ht : ∀ n k, k.service → m'.wheel.Armed n k →
      m.wheel.Armed n k ∨ (n = name ∧ (m.units.get name).isSome)) : Keeps name m m' where
  jobs := hj
  unitJob := hx
  nextJob := hn
  completedJobs := hc
  shuttingDown := hs
  others n _ := by rw [hu]
  setup := by rw [Manager.setupOf, hu, Manager.setupOf]
  restartOk h := by rwa [hu]
  toCalm := h
  timers := ht
  forgets u' hu' := ⟨u', by rwa [← hu], .of_procs rfl⟩
  active := by rw [Manager.activeOf, hu, Manager.activeOf]
  procs := by rw [hu]

/-- What changes no unit, no job and no timer. -/
theorem of_signals (hu : m'.units = m.units) (hj : m'.jobs = m.jobs) (hx : m'.unitJob = m.unitJob)
    (hn : m'.nextJob = m.nextJob) (hc : m'.completedJobs = m.completedJobs)
    (hs : m'.shuttingDown = m.shuttingDown) (hw : m'.wheel = m.wheel) (hp : m'.pidUnit = m.pidUnit)
    (hk : m'.kernel.children = m.kernel.children) (h : Signals m m') : Keeps name m m' :=
  of_calm hu hj hx hn hc hs ⟨by rw [hw]; exact .refl, hp, hk, h⟩ fun _ _ _ ha ↦
    .inl (by rwa [hw] at ha)

theorem setResult {r : UnitResult} : Keeps name m (m.setResult name r) :=
  .modifyUnit fun _ ↦ ⟨⟨rfl, rfl⟩, rfl, rfl, id⟩

theorem ensureCgroup : Keeps name m (m.ensureCgroup w name) :=
  .modifyUnit fun _ ↦ ⟨⟨rfl, rfl⟩, rfl, rfl, id⟩

theorem releaseBusNameWatch : Keeps name m (m.releaseBusNameWatch name) :=
  .of_signals rfl rfl rfl rfl rfl rfl rfl rfl rfl .refl

theorem watchBusName {busName : String} : Keeps name m (m.watchBusName name busName) :=
  .of_signals rfl rfl rfl rfl rfl rfl rfl rfl rfl .refl

theorem killTree {sig : Signal} : Keeps name m (m.killTree name sig) :=
  .of_signals rfl rfl rfl rfl rfl rfl rfl rfl rfl .killTree

theorem sweepOrphanedGroup {u : Unit} {pgid : Pid} :
    Keeps name m (m.sweepOrphanedGroup w name u pgid) := by
  refine .of_signals rfl rfl rfl rfl rfl rfl rfl rfl rfl ⟨_, rfl, fun e he ↦ ?_⟩
  split at he
  · cases List.mem_singleton.mp he
    rfl
  · cases he

theorem armTimeout {k : TimerKind} {t : TimeSpan} (hu : (m.units.get name).isSome)
    (hk : k ≠ .restartDelay) (hs : k.service) : Keeps name m (m.armTimeout w name k t) :=
  .of_calm rfl rfl rfl rfl rfl rfl ⟨.arm hk hs, rfl, rfl, .of_eq rfl⟩ fun _ _ _ ha ↦
    (TimerWheel.armed_of_arm ha).imp_right fun h ↦ ⟨h.1, hu⟩

theorem armStopTimeout {u : Unit} (hu : (m.units.get name).isSome) :
    Keeps name m (m.armStopTimeout w name u) := by
  cases hs : u.serviceCfg with
  | none =>
    rw [Manager.armStopTimeout, hs]
    exact .refl
  | some sc =>
    rw [Manager.armStopTimeout, hs]
    exact armTimeout hu (by simp) rfl

theorem armStartTimeout {u : Unit} (hu : (m.units.get name).isSome) :
    Keeps name m (m.armStartTimeout w name u) := by
  cases hs : u.serviceCfg with
  | none =>
    rw [Manager.armStartTimeout, hs]
    exact .refl
  | some sc =>
    rw [Manager.armStartTimeout, hs]
    exact armTimeout hu (by simp) rfl

end Keeps

/-- To the jobs and the active states a new process makes no difference. -/
theorem Local.recordSpawn {cmd : ControlCommand} {idx : Nat} {pid : Pid} {main : Bool} :
    Local name m (m.recordSpawn name cmd idx pid main) := by
  have h : Local name m (m.modifyUnit name fun u ↦
      if main then
        { u with mainPid := some pid, controlPid := none, controlCommand := none, groupPid := some pid }
      else { u with controlPid := some pid, controlCommand := some cmd, groupPid := some pid }) :=
    .modifyUnit (fun _ ↦ by split <;> exact ⟨rfl, rfl⟩) fun u hu ↦ by split <;> exact hu
  exact ⟨h.jobs, h.unitJob, h.nextJob, h.completedJobs, h.shuttingDown, h.others, h.setup, h.restartOk⟩

theorem Local.adoptPid {pid : Pid} : Local name m (m.adoptPid name pid) := by
  have h : Local name m (m.modifyUnit name fun u ↦ { u with mainPid := some pid }) :=
    .modifyUnit (fun _ ↦ ⟨rfl, rfl⟩) fun u hu ↦ hu
  exact ⟨h.jobs, h.unitJob, h.nextJob, h.completedJobs, h.shuttingDown, h.others, h.setup, h.restartOk⟩

theorem activeOf_adoptPid {pid : Pid} : (m.adoptPid name pid).activeOf name = m.activeOf name := by
  change (m.modifyUnit name _).activeOf name = _
  rw [activeOf_modifyUnit, Manager.activeOf]

theorem activeOf_recordSpawn {cmd : ControlCommand} {idx : Nat} {pid : Pid} {main : Bool} :
    (m.recordSpawn name cmd idx pid main).activeOf name = m.activeOf name := by
  change (m.modifyUnit name _).activeOf name = _
  rw [activeOf_modifyUnit, Manager.activeOf]
  congr 1
  funext u
  split <;> rfl

theorem Puts.setActive {sub : SubState} {r : UnitResult} (h : (m.units.get name).isSome)
    (hs : sub ≠ .autoRestart) : Puts name s m (m.setActive w name s sub r) where
  toTouches := .modifyUnit (fun _ ↦ setActive_setup ..)
    (fun u _ ↦ setActive_restartOk _ _ _ fun h ↦ absurd h hs) fun u ↦ .of_procs (setActive_procs ..)
  active := by
    obtain ⟨u, hu⟩ := Option.isSome_iff_exists.mp h
    rw [Manager.setActive, activeOf_modifyUnit, hu]
    simp

theorem checkStartLimit_setup (now : Nat) (u : Unit) :
    ((Manager.checkStartLimit now u).2.kind = u.kind ∧
      (Manager.checkStartLimit now u).2.file = u.file) ∧
      (Manager.checkStartLimit now u).2.active = u.active ∧
      (Manager.checkStartLimit now u).2.procs = u.procs ∧
      ((Manager.checkStartLimit now u).2.sub = .autoRestart → u.sub = .autoRestart) := by
  unfold Manager.checkStartLimit
  dsimp only
  split <;> exact ⟨⟨rfl, rfl⟩, rfl, rfl, id⟩

/-- Overwriting a unit by what a function makes of it. -/
theorem modifyUnit_const (f : Unit → Unit) {u : Unit} (hu : m.units.get name = some u) :
    (m.modifyUnit name fun _ ↦ f u) = m.modifyUnit name f := by
  unfold Manager.modifyUnit Table.modify
  rw [hu]

theorem Keeps.checkStartLimit {now : Nat} {u : Unit} (hu : m.units.get name = some u) :
    Keeps name m (m.modifyUnit name fun _ ↦ (Manager.checkStartLimit now u).2) := by
  rw [modifyUnit_const (fun u ↦ (Manager.checkStartLimit now u).2) hu]
  exact .modifyUnit fun _ ↦ checkStartLimit_setup ..

/-- Between `m` and `m'` no job changed, and no unit but for its timers and paths. -/
structure Quiet (m m' : Manager) : Prop where
  jobs : m'.jobs = m.jobs
  unitJob : m'.unitJob = m.unitJob
  nextJob : m'.nextJob = m.nextJob
  completedJobs : m'.completedJobs = m.completedJobs
  shuttingDown : m'.shuttingDown = m.shuttingDown
  units : ∀ n, (m'.units.get n).map Unit.core = (m.units.get n).map Unit.core

namespace Quiet

theorem refl : Quiet m m := ⟨rfl, rfl, rfl, rfl, rfl, fun _ ↦ rfl⟩

theorem trans (h : Quiet m m') (h' : Quiet m' m'') : Quiet m m'' :=
  ⟨h'.jobs.trans h.jobs, h'.unitJob.trans h.unitJob, h'.nextJob.trans h.nextJob,
    h'.completedJobs.trans h.completedJobs, h'.shuttingDown.trans h.shuttingDown,
    fun n ↦ (h'.units n).trans (h.units n)⟩

theorem of_eq (hu : m'.units = m.units) (hj : m'.jobs = m.jobs) (hx : m'.unitJob = m.unitJob)
    (hn : m'.nextJob = m.nextJob) (hc : m'.completedJobs = m.completedJobs)
    (hs : m'.shuttingDown = m.shuttingDown) : Quiet m m' :=
  ⟨hj, hx, hn, hc, hs, fun _ ↦ by rw [hu]⟩

theorem modifyUnit {f : Unit → Unit} (hf : ∀ u, (f u).core = u.core) :
    Quiet m (m.modifyUnit name f) where
  jobs := rfl
  unitJob := rfl
  nextJob := rfl
  completedJobs := rfl
  shuttingDown := rfl
  units n := by
    rw [Manager.modifyUnit, Table.get_modify]
    split
    · rw [Option.map_map]
      congr 1
      funext u
      exact hf u
    · rfl

theorem activeOf (h : Quiet m m') (n : Name) : m'.activeOf n = m.activeOf n := by
  have := congrArg (Option.map Unit.active) (h.units n)
  rwa [Option.map_map, Option.map_map] at this

theorem isSome (h : Quiet m m') (n : Name) : (m'.units.get n).isSome = (m.units.get n).isSome := by
  have := congrArg Option.isSome (h.units n)
  rwa [Option.isSome_map, Option.isSome_map] at this

theorem setupOf (h : Quiet m m') (n : Name) : m'.setupOf n = m.setupOf n := by
  have := congrArg (Option.map fun u : Unit ↦ (u.kind, u.file)) (h.units n)
  rwa [Option.map_map, Option.map_map] at this

theorem rearmTimer (h : m.rearmTimer w name = some m') : Quiet m m' := by
  unfold Manager.rearmTimer at h
  extract_lets wheel at h
  split at h
  · cases h
    exact .of_eq rfl rfl rfl rfl rfl rfl
  · obtain ⟨u, hu, h⟩ := Option.bind_eq_some_iff.mp h
    split at h
    · cases h
      exact .of_eq rfl rfl rfl rfl rfl rfl
    · next tc _ =>
      extract_lets st calendar wheel' display at h
      split at h
      next x wheel'' display' _ =>
      cases h
      have hu : Quiet m (m.modifyUnit name fun u ↦
          { u with timer := some { st with nextDisplay := display' } }) := .modifyUnit fun _ ↦ rfl
      exact hu.trans (.of_eq rfl rfl rfl rfl rfl rfl)

theorem rearmTimers {names : List Name} (h : m.rearmTimers w names = some m') : Quiet m m' := by
  induction names generalizing m with
  | nil => cases h; exact .refl
  | cons n names ih =>
    obtain ⟨m₁, h₁, h⟩ := Option.bind_eq_some_iff.mp h
    exact (rearmTimer h₁).trans (ih h)

theorem pollPaths : Quiet m (m.pollPaths w).1 := by
  unfold Manager.pollPaths
  extract_lets step r
  suffices ∀ (names : List Name) (acc : Table Name Unit × List Call),
      (∀ n, (acc.1.get n).map Unit.core = (m.units.get n).map Unit.core) →
      ∀ n, ((names.foldl step acc).1.get n).map Unit.core = (m.units.get n).map Unit.core from
    ⟨rfl, rfl, rfl, rfl, rfl, this _ _ fun _ ↦ rfl⟩
  intro names
  induction names with
  | nil => exact fun acc h ↦ h
  | cons a names ih =>
    intro acc h
    refine ih _ fun n ↦ ?_
    dsimp only [step]
    split
    · exact h n
    · split
      · exact h n
      · split
        · rw [Table.get_modify]
          split
          · rw [Option.map_map]
            exact h n
          · exact h n
        · exact h n

end Quiet

/-- Between `m` and `m'` no process came or went. Timers may have been lost, but no deadline of a
service is new. -/
structure Silent (m m' : Manager) : Prop where
  pidUnit : m'.pidUnit = m.pidUnit
  children : m'.kernel.children = m.kernel.children
  signals : Signals m m'
  wheel : m.wheel.NoService m'.wheel

namespace Silent

theorem of_wheel (hp : m'.pidUnit = m.pidUnit) (hk : m'.kernel = m.kernel)
    (hw : m.wheel.NoService m'.wheel) : Silent m m' :=
  ⟨hp, by rw [hk], .of_eq hk, hw⟩

theorem refl : Silent m m := .of_wheel rfl rfl .refl

theorem trans (h : Silent m m') (h' : Silent m' m'') : Silent m m'' :=
  ⟨h'.pidUnit.trans h.pidUnit, h'.children.trans h.children, h.signals.trans h'.signals,
    h.wheel.trans h'.wheel⟩

theorem armCalendar_noService {v : TimerWheel} (c : Option (Nat × Nat)) :
    v.NoService (Manager.armCalendar w name v c) := by
  cases c with
  | none => exact .refl
  | some c => exact .schedule rfl

theorem rearmTimer (h : m.rearmTimer w name = some m') : Silent m m' := by
  unfold Manager.rearmTimer at h
  extract_lets wheel at h
  have hw : m.wheel.NoService wheel := .cancelByUnit
  split at h
  · cases h
    exact .of_wheel rfl rfl hw
  · obtain ⟨u, hu, h⟩ := Option.bind_eq_some_iff.mp h
    split at h
    · cases h
      exact .of_wheel rfl rfl hw
    · next tc _ =>
      extract_lets st calendar wheel' display at h
      have hw' : m.wheel.NoService wheel' := hw.trans (armCalendar_noService calendar)
      split at h
      next x wheel'' display' hx =>
      cases h
      refine .of_wheel rfl rfl ?_
      split at hx
      · split at hx
        · cases hx
          exact hw'.trans (.schedule rfl)
        · cases hx
          exact hw'
      · cases hx
        exact hw'

theorem rearmTimers {names : List Name} (h : m.rearmTimers w names = some m') : Silent m m' := by
  induction names generalizing m with
  | nil => cases h; exact .refl
  | cons n names ih =>
    obtain ⟨m₁, h₁, h⟩ := Option.bind_eq_some_iff.mp h
    exact (rearmTimer h₁).trans (ih h)

end Silent

/-- A unit on which nothing was done yet. -/
structure Unit.Fresh (u : Unit) : Prop where
  active : u.active = .inactive ∨ (u.active = .active ∧ u.kind = .device)
  sub : u.sub = .dead
  mainPid : u.mainPid = none
  groupPid : u.groupPid = none
  controlPid : u.controlPid = none
  controlCommand : u.controlCommand = none

/-- At most some fresh units were added. -/
structure AddsUnits (t t' : Table Name Unit) : Prop where
  kept : ∀ n u, t.get n = some u → t'.get n = some u
  added : ∀ n u, t.get n = none → t'.get n = some u → u.Fresh

theorem AddsUnits.refl {t : Table Name Unit} : AddsUnits t t :=
  ⟨fun _ _ ↦ id, fun _ _ h h' ↦ by rw [h] at h'; cases h'⟩

theorem AddsUnits.trans {t t' t'' : Table Name Unit} (h : AddsUnits t t') (h' : AddsUnits t' t'') :
    AddsUnits t t'' where
  kept n u hu := h'.kept n u (h.kept n u hu)
  added n u hn hu := by
    cases hn' : t'.get n with
    | none => exact h'.added n u hn' hu
    | some v =>
      have huv := h'.kept n v hn'
      rw [hu] at huv
      cases huv
      exact h.added n u hn hn'

theorem AddsUnits.insert {t : Table Name Unit} {u : Unit} (hu : u.Fresh) (hn : t.get name = none) :
    AddsUnits t (t.insert name u) where
  kept n v hv := by
    rw [Table.get_insert]
    split
    · next he => rw [he, hn] at hv; cases hv
    · exact hv
  added n v hv hv' := by
    rw [Table.get_insert] at hv'
    split at hv'
    · cases hv'; exact hu
    · rw [hv] at hv'; cases hv'

/-- Between `m` and `m'` at most some fresh units were added. -/
structure Adds (m m' : Manager) : Prop where
  jobs : m'.jobs = m.jobs
  unitJob : m'.unitJob = m.unitJob
  nextJob : m'.nextJob = m.nextJob
  completedJobs : m'.completedJobs = m.completedJobs
  shuttingDown : m'.shuttingDown = m.shuttingDown
  wheel : m'.wheel = m.wheel
  pidUnit : m'.pidUnit = m.pidUnit
  kernel : m'.kernel = m.kernel
  units : AddsUnits m.units m'.units

theorem Adds.refl : Adds m m := ⟨rfl, rfl, rfl, rfl, rfl, rfl, rfl, rfl, .refl⟩

theorem Adds.trans (h : Adds m m') (h' : Adds m' m'') : Adds m m'' :=
  ⟨h'.jobs.trans h.jobs, h'.unitJob.trans h.unitJob, h'.nextJob.trans h.nextJob,
    h'.completedJobs.trans h.completedJobs, h'.shuttingDown.trans h.shuttingDown,
    h'.wheel.trans h.wheel, h'.pidUnit.trans h.pidUnit, h'.kernel.trans h.kernel,
    h.units.trans h'.units⟩

theorem Adds.isSome (h : Adds m m') {n : Name} (hn : (m.units.get n).isSome) :
    (m'.units.get n).isSome := by
  obtain ⟨u, hu⟩ := Option.isSome_iff_exists.mp hn
  rw [h.units.kept n u hu]
  rfl

theorem Adds.activeOf (h : Adds m m') {n : Name} (hn : (m.units.get n).isSome) :
    m'.activeOf n = m.activeOf n := by
  obtain ⟨u, hu⟩ := Option.isSome_iff_exists.mp hn
  rw [Manager.activeOf, h.units.kept n u hu, Manager.activeOf, hu]

end Rystemd
