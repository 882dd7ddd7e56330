import Rystemd.Failures
import Rystemd.StaleExits

namespace Rystemd

open Worklist

/-- The calls in which a stop of the unit is finalized, and the state of the unit before them. -/
def Call.finalizes (name : Name) (m : Manager) : Call → Prop
  | .fireTimer n .stopTimeout | .mainExit n _ => n = name ∧ m.activeOf name = some .deactivating
  | .processExit pid _ => m.pidUnit.get pid = some name ∧ ∃ u, m.units.get name = some u ∧
      u.active ≠ .inactive ∧ (u.active = .deactivating ∨ u.controlCommand = some .stop)
  | .maybeStopJob id => m.unitOperational name ∧ ∃ job, m.jobs.get id = some job ∧ job.unit = name
  | _ => False

/-- The call starts the unit: it is a request or an event that names it, a dependency, or the end
of a start that was delayed. -/
def Call.startsUnit (name : Name) (c : Call) (m : Manager) : Bool :=
  match c with
  | .start n _ | .startIgnoreDependencies n | .restart n | .restartOrStart n | .enqueueStartJob n
  | .revive n => n = name
  | .maybeStartJob id => (m.jobs.get id).any fun job ↦ job.unit = name
  | _ => false

/-- The call leaves the unit loaded. -/
def Call.keepsLoaded (name : Name) (w : World) (c : Call) (m : Manager) : Bool :=
  match c with
  | .loadAll => w.discovered.contains name && (m.reloadUnit w name).isSome
  | .udevRemove device => !device.unitNames.contains name
  | _ => true

/-- The exit leaves an inactive unit inactive. -/
def Unit.exitKeepsInactive (u : Unit) (exit : ChildExit) : Bool :=
  !Manager.shouldRestart u.restartPolicy (u.exitOk exit) exit && u.exitOk exit &&
    u.exitedState.1 = .inactive

/-- The first command of `ExecReload=`, if there is one, can be spawned. -/
def Unit.reloadSpawns (w : World) (u : Unit) : Bool :=
  u.serviceCfg.all fun sc ↦ sc.execReload.head?.all fun command ↦
    (Manager.spawnRefused w sc .reload).isNone &&
      ((w.spawn .reload).toOption.isSome || command.ignoreFailure)

/-- No exit that would restart or fail it is taken for the exit of the main process of an inactive
unit, and no reload of an inactive unit fails. -/
def keepsStopped (w : World) (c : Call) (m : Manager) : Bool :=
  match c with
  | .mainExit n exit => (m.units.get n).all fun u ↦ u.active ≠ .inactive || u.exitKeepsInactive exit
  | .reload n => (m.units.get n).all fun u ↦ u.active ≠ .inactive || u.reloadSpawns w
  | _ => true

/-- The steps that may follow the stop of the unit while nobody starts it. -/
def leavesStopped (name : Name) (w : World) (c : Call) (m : Manager) : Bool :=
  keepsStopped w c m && !c.startsUnit name m && c.keepsLoaded name w m

variable {w : World} {c : Call} {m m' : Manager} {name : Name} {out : Out} {id : JobId} {u : Unit}
  {pid : Pid} {exit : ChildExit} {rest cs : List Call}

/-- The unit is inactive and has no process but those of a reload. -/
structure Unit.Stopped (u : Unit) : Prop where
  active : u.active = .inactive
  control : u.controlCommand = none ∨ u.controlCommand = some .reload

/-- The unit is stopped, and it is not about to fail. -/
structure Stopped (name : Name) (m : Manager) (todo : List Call) : Prop where
  unit : ∃ u, m.units.get name = some u ∧ u.Stopped
  calls : ∀ c ∈ todo, c.fails ≠ some name

theorem Unit.Stopped.of_bare {v : Unit} (h : u.Stopped) (he : v.bare = u.bare) : v.Stopped where
  active := (Unit.of_bare he fun _ ↦ rfl).trans h.active
  control := by
    rw [Unit.of_bare he (f := Unit.controlCommand) fun _ ↦ rfl]
    exact h.control

theorem Unit.Stopped.finalized {now : Nat} : (u.finalized now).Stopped where
  active := setActive_active ..
  control := .inl (congrArg (·.2.2.2) finalized_procs)

theorem finalizeStop_get (h : m.finalizeStop w name = some out) :
    ∃ u', out.1.units.get name = some u' ∧ u'.Stopped := by
  obtain ⟨u, hu, h⟩ := Option.bind_eq_some_iff.mp h
  refine ⟨u.finalized w.now, ?_, .finalized⟩
  rw [(JobsOnly.completeJob h).units]
  change (m.units.modify name _).get name = _
  rw [Table.get_modify, if_pos rfl, hu]
  rfl

theorem modifyUnit_get {f : Unit → Unit} (hu : m.units.get name = some u) :
    (m.modifyUnit name f).units.get name = some (f u) := by
  rw [Manager.modifyUnit, Table.get_modify, if_pos rfl, hu, Option.map_some]

/-- The control command that `stop` or `reload` runs is no main process, so the state stays. -/
theorem spawned_active {sc : ServiceConfig} {cmd : ControlCommand} {idx : Nat}
    (hc : cmd ≠ .start) (hu : m.units.get name = some u)
    (h : m.spawned w name sc cmd idx pid = some out) :
    out.2 = [] ∧ ∃ u', out.1.units.get name = some u' ∧ u'.active = u.active ∧
      u'.controlCommand = some cmd := by
  have hmain : (cmd = .start && sc.serviceType.tracksMain) = false := by simp [hc]
  unfold Manager.spawned at h
  rw [hmain] at h
  cases h
  refine ⟨rfl, { u with controlPid := some pid, controlCommand := some cmd, groupPid := some pid },
    ?_, rfl, rfl⟩
  simp [Manager.armTimeout, Manager.modifyUnit, Manager.recordSpawn, Table.get_modify, hu, hc]

/-- How a control command other than `ExecStart=` is run: there is none left, it runs, or it cannot
be spawned. -/
inductive ControlRun (w : World) (name : Name) (u : Unit) (cmd : ControlCommand)
    (exec : Option ExecCommand) (done : Manager → Option Out) : Out → Prop
  | ended {m : Manager} {u' : Unit} {out : Out} : m.units.get name = some u' →
      u'.active = u.active → u'.controlCommand = u.controlCommand → done m = some out →
      ControlRun w name u cmd exec done out
  | runs {m : Manager} {u' : Unit} : m.units.get name = some u' → u'.active = u.active →
      u'.controlCommand = some cmd → ControlRun w name u cmd exec done (m, [])
  | fails {m : Manager} {u' : Unit} {msg : String} {sc : ServiceConfig} {command : ExecCommand} :
      m.units.get name = some u' → u'.active = u.active → u.serviceCfg = some sc →
      exec = some command → (Manager.spawnRefused w sc cmd).isSome ∨
        ((w.spawn cmd).toOption = none ∧ (command.ignoreFailure && cmd ≠ .stop) = false) →
      ControlRun w name u cmd exec done (m, [.failUnit name msg])

theorem spawnCommand_runs {cmd : ControlCommand} {idx : Nat} {done : Manager → Option Out}
    (hc : cmd ≠ .start) (hu : m.units.get name = some u)
    (h : m.spawnCommand w name cmd idx done = some out) :
    ControlRun w name u cmd (u.serviceCfg.bind fun sc ↦ (Manager.execSlice sc cmd)[idx]?) done out := by
  obtain ⟨u₀, hu₀, h⟩ := Option.bind_eq_some_iff.mp h
  rw [hu] at hu₀
  cases hu₀
  split at h
  · exact .ended hu rfl rfl h
  · next sc hsc =>
    split at h
    · exact .ended hu rfl rfl h
    · next command hcommand =>
      have hexec : (u.serviceCfg.bind fun sc ↦ (Manager.execSlice sc cmd)[idx]?) = some command := by
        rw [hsc, Option.bind_some, hcommand]
      split at h
      · next r msg hr =>
        cases h
        exact .fails (modifyUnit_get hu) rfl hsc hexec (.inl (by rw [hr]; rfl))
      · have hu₁ : (m.ensureCgroup w name).units.get name = some _ := modifyUnit_get hu
        split at h
        · obtain ⟨hnil, u', hu', ha, hcmd⟩ := spawned_active hc hu₁ h
          obtain ⟨m', calls⟩ := out
          cases hnil
          exact .runs hu' ha hcmd
        · next e he =>
          split at h
          · exact .ended hu₁ rfl rfl h
          · next hi =>
            cases h
            refine .fails (modifyUnit_get hu₁) rfl hsc hexec (.inr ⟨?_, eq_false_of_ne_true hi⟩)
            rw [he]
            rfl

/-- A reload that can be spawned leaves the state of the unit. -/
theorem reload_stopped (hu : m.units.get name = some u) (hs : u.Stopped) (hw : u.reloadSpawns w)
    (h : m.reload w name = some out) :
    out.2 = [] ∧ ∃ u', out.1.units.get name = some u' ∧ u'.Stopped := by
  unfold Manager.reload at h
  rw [hu] at h
  dsimp only at h
  split at h
  · cases spawnCommand_runs (by simp) hu h with
    | ended hu' ha hcmd hd =>
      cases hd
      exact ⟨rfl, _, hu', ha.trans hs.active, by rw [hcmd]; exact hs.control⟩
    | runs hu' ha hcmd => exact ⟨rfl, _, hu', ha.trans hs.active, .inr hcmd⟩
    | @fails _ _ _ sc command _ _ hsc hexec hr =>
      rw [hsc, Option.bind_some] at hexec
      have hhead : sc.execReload.head? = some command := List.head?_eq_getElem?.trans hexec
      simp only [Unit.reloadSpawns, hsc, Option.all_some, hhead, Bool.and_eq_true,
        Option.isNone_iff_eq_none, Bool.or_eq_true] at hw
      rcases hr with hr | ⟨hr, hi⟩
      · rw [hw.1] at hr
        cases hr
      · rcases hw.2 with hx | hx
        · rw [hr] at hx
          cases hx
        · simp [hx] at hi
  · cases h
    exact ⟨rfl, u, hu, hs⟩

theorem doStop_stopped (h : m.doStop w name = some out)
    (hi : out.1.activeOf name = some .inactive) :
    ∃ u', out.1.units.get name = some u' ∧ u'.Stopped := by
  obtain ⟨u, hu, h⟩ := Option.bind_eq_some_iff.mp h
  extract_lets m₁ at h
  have hu₁ : m₁.units.get name = some (u.setActive w.now .deactivating .stop .success) :=
    modifyUnit_get hu
  have hd : (u.setActive w.now .deactivating .stop .success).active = .deactivating :=
    setActive_active ..
  have busy {m' : Manager} {u' : Unit} (hu' : m'.units.get name = some u')
      (ha : u'.active = .deactivating) : m'.activeOf name ≠ some .inactive := by
    rw [activeOf_eq hu', ha]
    simp
  split at h
  · obtain ⟨u₂, hu₂, h⟩ := Option.bind_eq_some_iff.mp h
    rw [hu₁] at hu₂
    cases hu₂
    split at h
    · cases h
      have signalled (sig : Signal) : ((m₁.killTree name sig).modifyUnit name fun u ↦
          { u with sub := .stopSigterm }).units.get name = some _ :=
        modifyUnit_get (m := m₁.killTree name sig) hu₁
      exact absurd hi (busy (signalled _) hd)
    · split at h
      · exact finalizeStop_get h
      · have hu₃ := modifyUnit_get (f := fun u ↦ { u with sub := .stop }) hu₁
        cases spawnCommand_runs (by simp) hu₃ h with
        | ended _ _ _ hdone => exact finalizeStop_get hdone
        | runs hu' ha => exact absurd hi (busy hu' (ha.trans hd))
        | fails hu' ha => exact absurd hi (busy hu' (ha.trans hd))
  · exact finalizeStop_get h
  · exact finalizeStop_get h
  · exact finalizeStop_get h
  · exact finalizeStop_get h
  · exact finalizeStop_get h
  · obtain ⟨u₂, hu₂, h⟩ := Option.bind_eq_some_iff.mp h
    rw [hu₁] at hu₂
    cases hu₂
    split at h
    · exact finalizeStop_get h
    · split at h
      · exact finalizeStop_get h
      · cases h
        exact absurd hi (busy (modifyUnit_get hu₁) hd)

/-- A stop that is finalized leaves nothing of the unit that could move it. -/
theorem finalizes_stopped {c : Call} (hc : c.finalizes name m) (h : exec w c m = some out)
    (hi : out.1.activeOf name = some .inactive) :
    ∃ u', out.1.units.get name = some u' ∧ u'.Stopped := by
  cases c with
  | fireTimer n kind =>
    cases kind with
    | stopTimeout =>
      obtain ⟨rfl, hd⟩ := hc
      cases fireTimer_acts h with
      | rests hr =>
        rw [hr.activeOf (isSome_of_activeOf hd), hd] at hi
        cases hi
      | expires _ ho => exact finalizeStop_get ho
      | runs hx => cases hx
    | _ => cases hc
  | mainExit n exit =>
    obtain ⟨rfl, hd⟩ := hc
    obtain ⟨u, hu, h⟩ := Option.bind_eq_some_iff.mp h
    rw [activeOf_eq hu, Option.some.injEq] at hd
    rw [hd] at h
    exact finalizeStop_get h
  | processExit pid exit =>
    obtain ⟨howner, u, hu, hne, hd⟩ := hc
    have moved {m' : Manager} {u' : Unit} (hu' : m'.units.get name = some u')
        (ha : u'.active = u.active) : m'.activeOf name ≠ some .inactive := by
      rw [activeOf_eq hu', ha]
      simpa using hne
    cases processExit_cases h with
    | ignored | main => exact absurd hi (moved hu rfl)
    | control howner' hu' _ _ h =>
      rw [howner] at howner'
      cases howner'
      have hu₁ : (m.forgetPid pid).units.get name = some u := hu
      obtain ⟨u₂, hu₂, h⟩ := Option.bind_eq_some_iff.mp h
      rw [hu₁] at hu₂
      cases hu₂
      extract_lets m₁ at h
      have hu₂ : m₁.units.get name = some _ := modifyUnit_get hu₁
      split at h
      · cases h
        exact absurd hi (moved hu₂ rfl)
      · split at h
        · exact finalizeStop_get h
        · next hnd =>
          have hstop := hd.resolve_left hnd
          unfold Manager.controlExited at h
          rw [hstop] at h
          exact finalizeStop_get h
  | maybeStopJob id =>
    obtain ⟨hop, job, hj, rfl⟩ := hc
    obtain ⟨job', hj', ⟨ho, rfl⟩ | ⟨-, -, rfl⟩ | ⟨-, -, h⟩⟩ := maybeStopJob_cases h
    · rw [hj] at hj'
      cases hj'
      rw [hop] at ho
      cases ho
    · obtain ⟨u, hu, ho⟩ := (Option.any_eq_true ..).mp hop
      rw [activeOf_eq hu, Option.some.injEq] at hi
      simp [Unit.operational, hi] at ho
    · rw [hj] at hj'
      cases hj'
      exact doStop_stopped h hi
  | _ => cases hc

theorem reloadUnits_isSome_get (hn : name ∈ w.discovered) (h : m.reloadUnit w name = some u) :
    (m.reloadUnits w).get name = some u := by
  rw [reloadUnits_get_eq, if_pos hn, h]

theorem loadUnit_inactive (h : Manager.loadUnit w name = .ok (some u)) : u.Stopped := by
  unfold Manager.loadUnit at h
  split at h
  · cases h
  · cases h
  · cases h
    exact ⟨rfl, .inl rfl⟩

/-- The unit that a reload makes of an inactive one. -/
theorem reloadUnit_stopped {u' : Unit} (hu : m.units.get name = some u) (hs : u.Stopped)
    (h : m.reloadUnit w name = some u') : u'.Stopped := by
  unfold Manager.reloadUnit at h
  split at h
  · cases h
  · next v hv =>
    cases h
    rw [hu]
    dsimp only
    rw [if_pos hs.active]
    exact loadUnit_inactive hv
  · cases h
    exact ⟨rfl, .inl rfl⟩

theorem loadAll_stopped (hu : m.units.get name = some u) (hs : u.Stopped)
    (hl : name ∈ w.discovered) (hr : (m.reloadUnit w name).isSome) (h : m.loadAll w = some m') :
    ∃ u', m'.units.get name = some u' ∧ u'.Stopped := by
  obtain ⟨m₁, ha, hq, -⟩ := loadAll_cases h
  obtain ⟨v, hv⟩ := Option.isSome_iff_exists.mp hr
  have hst : v.Stopped := reloadUnit_stopped hu hs hv
  have hv₁ := ha.units.kept name v (reloadUnits_isSome_get hl hv)
  have hn := hq.units name
  rw [hv₁] at hn
  obtain ⟨u', hu', he⟩ := Option.map_eq_some_iff.mp hn
  have hb : u'.core.bare = v.core.bare := congrArg Unit.bare he
  exact ⟨u', hu', hst.of_bare hb⟩

theorem udevRemove_stopped {device : Device} (hu : m.units.get name = some u)
    (hd : name ∉ device.unitNames) : (m.udevRemove device).units.get name = some u := by
  obtain ⟨v, hv⟩ := Option.isSome_iff_exists.mp
    (udevRemove_isSome hd (by rw [hu]; rfl) : ((m.udevRemove device).units.get name).isSome)
  rw [hv, ← udevRemove_get hv, hu]

/-- An exit that would neither restart nor fail it leaves the unit inactive. -/
theorem mainExit_stopped (hu : m.units.get name = some u) (hs : u.Stopped)
    (hx : u.exitKeepsInactive exit) (h : m.mainExit w name exit = some out) :
    ∃ u', out.1.units.get name = some u' ∧ u'.Stopped := by
  simp only [Unit.exitKeepsInactive, Bool.and_eq_true, Bool.not_eq_true', decide_eq_true_eq] at hx
  obtain ⟨⟨hr, hok⟩, hstate⟩ := hx
  obtain ⟨u₀, hu₀, h⟩ := Option.bind_eq_some_iff.mp h
  rw [hu] at hu₀
  cases hu₀
  extract_lets m₁ m₂ m₃ at h
  rw [hs.active] at h
  have hu₁ : m₁.units.get name = some u.mainless := forgetMain_get hu
  obtain ⟨u₁, hu₁', h⟩ := Option.bind_eq_some_iff.mp h
  rw [hu₁] at hu₁'
  cases hu₁'
  have hr : Manager.shouldRestart u.mainless.restartPolicy (u.mainless.exitOk exit) exit = false := hr
  have hok : u.mainless.exitOk exit := hok
  rw [hr, if_neg Bool.false_ne_true, if_pos hok] at h
  extract_lets s at h
  obtain ⟨r, hc, h⟩ := Option.bind_eq_some_iff.mp h
  cases h
  refine ⟨u.mainless.setActive w.now s.1 s.2 .success, ?_, ?_, ?_⟩
  · change r.1.units.get name = _
    rw [(JobsOnly.completeJob hc).units]
    exact setActive_get hu₁
  · rw [setActive_active]
    exact hstate
  · have hp : u.mainless.procs.2.2.2 = u.controlCommand := rfl
    have hcmd := congrArg (·.2.2.2) (setActive_procs w.now s.1 s.2 .success u.mainless)
    rw [show (u.mainless.setActive w.now s.1 s.2 .success).controlCommand = u.controlCommand from hcmd]
    exact hs.control

/-- The exit of the process of a reload is of no consequence; any other one counts as the exit of
the main process. -/
theorem controlExit_stopped (hu : m.units.get name = some u) (hs : u.Stopped)
    (h : m.handleControlExit w name exit = some out) :
    (∃ u', out.1.units.get name = some u' ∧ u'.Stopped) ∧ ∀ c ∈ out.2, c = .mainExit name exit := by
  obtain ⟨u₀, hu₀, h⟩ := Option.bind_eq_some_iff.mp h
  rw [hu] at hu₀
  cases hu₀
  extract_lets m₁ at h
  have hu₁ : ∃ u', m₁.units.get name = some u' ∧ u'.Stopped :=
    ⟨_, modifyUnit_get hu, hs.active, .inl rfl⟩
  rcases hs.control with hc | hc
  · simp [hs.active, hc, Manager.controlExited] at h
    cases h
    exact ⟨hu₁, by simp⟩
  · simp [hs.active, hc, Manager.controlExited] at h
    cases h
    exact ⟨hu₁, by simp⟩

/-- A call that neither starts nor unloads the unit leaves it stopped. -/
theorem stopped_unit (hr : ∀ u ∈ m.units.get name, u.RestartOk) (hu : m.units.get name = some u)
    (hs : u.Stopped) (hf : c.fails ≠ some name) (hc : leavesStopped name w c m)
    (h : exec w c m = some out) : ∃ u', out.1.units.get name = some u' ∧ u'.Stopped := by
  simp only [leavesStopped, Bool.and_eq_true, Bool.not_eq_true'] at hc
  obtain ⟨⟨hk, hst⟩, hl⟩ := hc
  have hidle : m.activeOf name = some .inactive := by rw [activeOf_eq hu, hs.active]
  by_cases ha : c.actsOn m name
  · cases c with
    | revive n =>
      obtain rfl : n = name := ha
      simp [Call.startsUnit] at hst
    | resetFailed n =>
      obtain rfl : n = name := ha
      cases h
      rcases (resetFailed_cases : m.resetFailed n = m ∨ _) with he | ⟨hfailed, -⟩
      · rw [he]
        exact ⟨u, hu, hs⟩
      · rw [hidle] at hfailed
        cases hfailed
    | reload n =>
      obtain rfl : n = name := ha
      have hw : u.reloadSpawns w := by simpa [keepsStopped, hu, hs.active] using hk
      exact (reload_stopped hu hs hw h).2
    | failUnit n msg =>
      obtain rfl : n = name := ha
      exact absurd rfl hf
    | mainExit n exit =>
      obtain rfl : n = name := ha
      have hx : u.exitKeepsInactive exit := by simpa [keepsStopped, hu, hs.active] using hk
      exact mainExit_stopped hu hs hx h
    | fireTimer n kind =>
      obtain ⟨rfl, -⟩ := ha
      cases fireTimer_acts h with
      | rests hrest =>
        obtain ⟨u', hu', he⟩ := hrest.kept n u hu
        exact ⟨u', hu', hs.of_bare he⟩
      | restarts hu' hsub =>
        rw [hu] at hu'
        cases hu'
        cases hs.active.symm.trans (hr u hu hsub)
      | expires hd =>
        rw [hidle] at hd
        cases hd
      | runs hx => cases hx
    | maybeStartJob id =>
      obtain ⟨job, hj, hn⟩ := ha
      simp [Call.startsUnit, hj, hn] at hst
    | maybeStopJob id =>
      obtain ⟨-, -, -, ho⟩ := ha
      simp [Manager.unitOperational, hu, Unit.operational, hs.active] at ho
    | processExit pid exit =>
      cases processExit_cases h with
      | ignored | main => exact ⟨u, hu, hs⟩
      | control howner hu' _ _ h =>
        have hn : m.pidUnit.get pid = some name := ha
        rw [hn] at howner
        cases howner
        exact (controlExit_stopped (m := m.forgetPid pid) hu hs h).1
    | notify | nameAcquired =>
      have hn : m.activeOf name = some .activating := ha
      rw [hidle] at hn
      cases hn
    | loadAll =>
      obtain ⟨m', hm', rfl⟩ := Option.map_eq_some_iff.mp h
      simp only [Call.keepsLoaded, Bool.and_eq_true, List.contains_iff_mem] at hl
      exact loadAll_stopped hu hs hl.1 hl.2 hm'
    | udevRemove device =>
      cases h
      have hd : name ∉ device.unitNames := by simpa [Call.keepsLoaded] using hl
      exact ⟨u, udevRemove_stopped hu hd, hs⟩
    | _ => cases ha
  · obtain ⟨u', hu', he⟩ := exec_elsewhere h hu ha
    exact ⟨u', hu', hs.of_bare he⟩

theorem idle_of_stopped (hu : m.units.get name = some u) (hs : u.Stopped) :
    m.activeOf name = some .inactive ∧ m.unitOperational name = false := by
  refine ⟨by rw [activeOf_eq hu, hs.active], ?_⟩
  simp [Manager.unitOperational, hu, Unit.operational, hs.active]

/-- Nor is it about to fail. -/
theorem stopped_calls (hr : ∀ u ∈ m.units.get name, u.RestartOk) (hu : m.units.get name = some u)
    (hs : u.Stopped) (hc : leavesStopped name w c m) (h : exec w c m = some out) :
    ∀ c' ∈ out.2, c'.fails ≠ some name := by
  simp only [leavesStopped, Bool.and_eq_true, Bool.not_eq_true'] at hc
  obtain ⟨⟨hk, hst⟩, -⟩ := hc
  obtain ⟨hidle, hop⟩ := idle_of_stopped hu hs
  intro c' hc' hf
  have quiet (hnil : out.2 = []) : False := by
    rw [hnil] at hc'
    cases hc'
  obtain ⟨hb, -⟩ := (exec_fails h).mem hc' (Option.mem_def.mpr hf)
  cases hb with
  | opens hx =>
    rcases hx with (⟨mode, rfl⟩ | hx) | rfl
    · simp [Call.startsUnit] at hst
    · cases c with
      | restart n | restartOrStart n =>
        obtain rfl : n = name := hx
        simp [Call.startsUnit] at hst
      | restartActivated n | tryRestart n =>
        obtain rfl : n = name := hx
        change (if m.unitOperational n then _ else _) = _ at h
        rw [hop] at h
        cases h
        exact quiet rfl
      | _ => cases hx
    · simp [Call.startsUnit] at hst
  | begins hj hn => simp [Call.startsUnit, hj, hn] at hst
  | stops _ _ ho => rw [hop] at ho; cases ho
  | reloads =>
    have hw : u.reloadSpawns w := by simpa [keepsStopped, hu, hs.active] using hk
    exact quiet (reload_stopped hu hs hw h).1
  | changing ha => simp [hidle] at ha
  | restarts hu' hsub =>
    rw [hu] at hu'
    cases hu'
    cases hs.active.symm.trans (hr u hu hsub)
  | exits howner hu' hp =>
    cases processExit_cases h with
    | ignored => cases hc'
    | main =>
      cases List.mem_singleton.mp hc'
      cases hf
    | control howner' _ _ _ h =>
      rw [howner] at howner'
      cases howner'
      obtain ⟨-, hcalls⟩ := controlExit_stopped (m := m.forgetPid _) hu hs h
      cases hcalls c' hc'
      cases hf

theorem Stopped.step (hm : Sound m) (h : Stopped name m (c :: rest))
    (hc : leavesStopped name w c m) (he : exec w c m = some out) :
    Stopped name out.1 (out.2 ++ rest) := by
  obtain ⟨u, hu, hs⟩ := h.unit
  have hr := hm.restartOk name
  refine ⟨stopped_unit hr hu hs (h.calls c (List.mem_cons_self ..)) hc he, fun c' hc' ↦ ?_⟩
  rcases List.mem_append.mp hc' with hc' | hc'
  · exact stopped_calls hr hu hs hc he c' hc'
  · exact h.calls c' (List.mem_cons_of_mem _ hc')

theorem finalizes_active (hc : c.finalizes name m) :
    ∃ s, m.activeOf name = some s ∧ s ≠ .inactive := by
  cases c with
  | fireTimer n kind =>
    cases kind with
    | stopTimeout => exact ⟨_, hc.2, by simp⟩
    | _ => cases hc
  | mainExit n exit => exact ⟨_, hc.2, by simp⟩
  | processExit pid exit =>
    obtain ⟨-, u, hu, hne, -⟩ := hc
    exact ⟨_, activeOf_eq hu, hne⟩
  | maybeStopJob id =>
    obtain ⟨u, hu, ho⟩ := (Option.any_eq_true ..).mp hc.1
    refine ⟨_, activeOf_eq hu, fun hi ↦ ?_⟩
    simp [Unit.operational, hi] at ho
  | _ => cases hc

/-- A unit whose stop was just finalized is stopped, whatever is still to be done. -/
theorem Stopped.of_finalized {C : World → Call → Manager → Prop}
    (hreach : Reaches C ⟨m, c :: rest⟩) (hc : c.finalizes name m) (h : exec w c m = some out)
    (hi : out.1.activeOf name = some .inactive) : Stopped name out.1 (out.2 ++ rest) := by
  refine ⟨finalizes_stopped hc h hi, fun c' hc' hf ↦ ?_⟩
  rcases List.mem_append.mp hc' with hc' | hc'
  · obtain ⟨-, hl⟩ := (exec_fails h).mem hc' (Option.mem_def.mpr hf)
    obtain ⟨s, hact, hne⟩ := finalizes_active hc
    rcases hl s hact with ha | ha | ha
    · rw [hi, Option.some.injEq] at ha
      exact hne ha.symm
    · rw [hi] at ha
      cases ha
    · rw [hi] at ha
      cases ha
  · rw [hreach.failsAtOnce.tail c' hc'] at hf
    cases hf

theorem Stopped.run {a b : Config Manager Call} (h : Run engine (leavesStopped name · · ·) a b)
    (hs : SoundConfig a) (ha : Stopped name a.state a.todo) : Stopped name b.state b.todo := by
  suffices SoundConfig b ∧ Stopped name b.state b.todo from this.2
  refine h.invariant (I := fun x ↦ SoundConfig x ∧ Stopped name x.state x.todo) ?_ ?_ ⟨hs, ha⟩
  · rintro s c ⟨hs, hst⟩ he
    have hf : c.fails = none := by cases c <;> first | rfl | cases he
    refine ⟨hs.arrive he, hst.unit, fun c' hc' ↦ ?_⟩
    rw [List.mem_singleton.mp hc', hf]
    simp
  · rintro w c s s' cs rest ⟨hs, hst⟩ - hc he
    exact ⟨hs.step he, hst.step hs.sound hc he⟩

/-- A unit whose stop was finalized stays inactive while nobody starts it or unloads it, unless an
exit that would restart or fail it is taken for the one of its main process, or a reload of it
fails. -/
theorem stopped_stays_stopped {rest : List Call} {b : Config Manager Call}
    (h : Reaches (fun _ _ _ ↦ True) ⟨m, c :: rest⟩) (hc : c.finalizes name m)
    (he : exec w c m = some (m', cs)) (hi : m'.activeOf name = some .inactive)
    (hr : Run engine (leavesStopped name · · ·) ⟨m', cs ++ rest⟩ b) :
    b.state.activeOf name = some .inactive := by
  have hs : Stopped name m' (cs ++ rest) := Stopped.of_finalized h hc he hi
  have hsound : SoundConfig ⟨m', cs ++ rest⟩ := h.sound.step he
  obtain ⟨u, hu, hst⟩ := (hs.run hr hsound).unit
  rw [activeOf_eq hu, hst.active]

/-- A machine with one service that is always restarted. -/
def alwaysMachine : World :=
  .ofFiles [("a.service", { service := some { execStart := [⟨["a"], false⟩], restart := .always } })]

/-- The service is started as process 7, and it is asked to stop. -/
def stopAlways : List (Move Call World) :=
  [.arrive (.start "a.service" .replace), .calls { alwaysMachine with spawn := fun _ ↦ .ok 7 } 3,
    .calls alwaysMachine 20, .arrive (.stop "a.service" .replace), .calls alwaysMachine 20]

/-- What the calls up to the end of the event make of a finalized stop. -/
def afterStop (C : World → Call → Manager → Prop) [∀ w c m, Decidable (C w c m)] (w : World)
    (c : Call) (a : Config Manager Call) : Option (Config Manager Call) :=
  match a.todo with
  | [] => none
  | c' :: rest =>
    if c' = c then
      match exec w c a.state with
      | none => none
      | some out =>
        if out.1.activeOf "a.service" = some .inactive then
          playCalls engine C w 20 ⟨out.1, out.2 ++ rest⟩
        else none
    else none

theorem afterStop_run {C : World → Call → Manager → Prop} [∀ w c m, Decidable (C w c m)]
    {a b : Config Manager Call} (h : afterStop C w c a = some b) : ∃ rest m' cs, a = ⟨a.state, c :: rest⟩ ∧
      exec w c a.state = some (m', cs) ∧ m'.activeOf "a.service" = some .inactive ∧
      Run engine C ⟨m', cs ++ rest⟩ b := by
  obtain ⟨m, todo⟩ := a
  unfold afterStop at h
  dsimp only at h
  split at h
  · cases h
  · next c' rest =>
    split at h
    · next hc =>
      subst hc
      split at h
      · cases h
      · next out ho =>
        split at h
        · next hi => exact ⟨rest, out.1, out.2, rfl, ho, hi, (playCalls_run h).run⟩
        · cases h
    · cases h

/-- The process exits after the signal. -/
def exitedAfterStop : Shown (fun _ _ _ ↦ True) fun a ↦
    a.state.activeOf "a.service" = some .deactivating &&
      (afterStop (leavesStopped "a.service" · · ·) alwaysMachine
        (.mainExit "a.service" (.exited 0)) a).isSome :=
  .play _ alwaysMachine (stopAlways ++
    [.arrive .reap, .calls { alwaysMachine with reaped := [(7, .exited 0)] } 2]) _ (by decide +kernel)

theorem stopped_stays_stopped_exited : ∃ m rest m' cs b, Reaches (fun _ _ _ ↦ True)
      ⟨m, .mainExit "a.service" (.exited 0) :: rest⟩ ∧
    exec alwaysMachine (.mainExit "a.service" (.exited 0)) m = some (m', cs) ∧
    Run engine (leavesStopped "a.service" · · ·) ⟨m', cs ++ rest⟩ b ∧
    b.state.activeOf "a.service" = some .inactive := by
  have hs := exitedAfterStop.shows
  simp only [Bool.and_eq_true, decide_eq_true_eq, Option.isSome_iff_exists] at hs
  obtain ⟨hd, b, hb⟩ := hs
  obtain ⟨rest, m', cs, ha, he, hi, hr⟩ := afterStop_run hb
  have hreach := exitedAfterStop.reached
  rw [ha] at hreach
  exact ⟨_, rest, m', cs, b, hreach, he, hr, stopped_stays_stopped hreach ⟨rfl, hd⟩ he hi hr⟩

/-- Nobody starts the unit, and it stays loaded. -/
def nobodyStarts (name : Name) (w : World) (c : Call) (m : Manager) : Bool :=
  !c.startsUnit name m && c.keepsLoaded name w m

/-- The process ignores the signal, and its exit is handled after the end of the stop. -/
def killedAfterStop : Shown (fun _ _ _ ↦ True) fun a ↦
    a.state.activeOf "a.service" = some .deactivating &&
      (afterStop (nobodyStarts "a.service" · · ·)
        { alwaysMachine with now := 100000000, reaped := [(7, .signaled 9)] }
        (.fireTimer "a.service" .stopTimeout) a).any fun b ↦
          b.state.activeOf "a.service" ≠ some .inactive :=
  .play _ alwaysMachine (stopAlways ++
    [.arrive .tick, .calls { alwaysMachine with now := 100000000 } 1]) _ (by decide +kernel)

/-- A stop that is over when the main process exits does not keep the service from a restart. -/
theorem stop_timeout_restarts : ¬ ∀ m c rest w m' cs b name,
    Reaches (fun _ _ _ ↦ True) ⟨m, c :: rest⟩ → c.finalizes name m →
    exec w c m = some (m', cs) → m'.activeOf name = some .inactive →
    Run engine (nobodyStarts name · · ·) ⟨m', cs ++ rest⟩ b →
    b.state.activeOf name = some .inactive := by
  intro h
  have hs := killedAfterStop.shows
  simp only [Bool.and_eq_true, decide_eq_true_eq, Option.any_eq_true] at hs
  obtain ⟨hd, b, hb, hne⟩ := hs
  obtain ⟨rest, m', cs, ha, he, hi, hr⟩ := afterStop_run hb
  have hreach := killedAfterStop.reached
  rw [ha] at hreach
  exact hne (h _ _ rest _ m' cs b _ hreach ⟨rfl, hd⟩ he hi hr)

end Rystemd
