import Rystemd.Nesting

namespace Rystemd

open Worklist

/-- A service whose `TimeoutStopSec=` is finite. -/
def Unit.stopLimited (u : Unit) : Bool :=
  u.kind = .service && u.serviceCfg.any fun sc ↦ sc.timeoutStopSec.asDuration.isSome

/-- Such a service is being stopped. -/
def Unit.stopsLimited (u : Unit) : Bool := u.active = .deactivating && u.stopLimited

namespace Manager

def stopLimited (m : Manager) (name : Name) : Bool := (m.units.get name).any Unit.stopLimited

/-- A process that the manager knows as one of the unit has not been reaped. -/
def processAlive (m : Manager) (u : Unit) : Bool :=
  [u.mainPid, u.groupPid, u.controlPid].any fun p ↦ p.any m.kernel.children.contains

def stopTimeoutArmed (m : Manager) (name : Name) : Bool :=
  m.wheel.entries.keys.any fun id ↦ (m.wheel.entries.get id).any fun e ↦
    e.unit = name && e.kind = .stopTimeout

/-- The stop of the unit would run `ExecStop=` as its control process. -/
def runsExecStop (w : World) (m : Manager) (name : Name) : Bool :=
  (m.units.get name).any fun u ↦ !hasProcesses w u && u.serviceCfg.any fun sc ↦
    !sc.execStop.isEmpty && (spawnRefused w sc .stop).isNone && (w.spawn .stop).toOption.isSome

end Manager

/-- The wheel is not replaced while a service with a finite `TimeoutStopSec=` is being stopped,
and no stop of such a service is left to an `ExecStop=` process. -/
def keepsStopTimeouts (w : World) (c : Call) (m : Manager) : Bool :=
  match c with
  | .shutdown => m.shuttingDown || m.units.keys.all fun n ↦ !(m.units.get n).any Unit.stopsLimited
  | .loadAll => (m.reloadUnits w).keys.all fun n ↦ !((m.reloadUnits w).get n).any Unit.stopsLimited
  | .maybeStopJob id => (m.jobs.get id).all fun job ↦ job.started || !m.stopLimited job.unit ||
      !m.runsExecStop w job.unit || m.stopTimeoutArmed job.unit
  | _ => true

/-- The call ends the stop of the unit. -/
def Call.endsStop (name : Name) : Call → Prop
  | .fireTimer n .stopTimeout => n = name
  | .failUnit n _ => n = name
  | _ => False

/-- Between `m` and `m'` no stop began and no timer was lost. -/
structure NoStop (m m' : Manager) : Prop where
  wf : m.wheel.Wf → m'.wheel.Wf
  armed : m.wheel.Wf → ∀ {n kind}, m.wheel.Armed n kind → m'.wheel.Armed n kind
  stopping : ∀ n, m'.activeOf n = some .deactivating → m.activeOf n = some .deactivating
  setup : ∀ n, m'.setupOf n = m.setupOf n

variable {w : World} {c : Call} {m m' m'' : Manager} {name n : Name} {out : Out} {kind : JobKind}
  {s : ActiveState}

namespace NoStop

theorem trans (h : NoStop m m') (h' : NoStop m' m'') : NoStop m m'' :=
  ⟨fun hw ↦ h'.wf (h.wf hw), fun hw _ _ ha ↦ h'.armed (h.wf hw) (h.armed hw ha),
    fun n hn ↦ h.stopping n (h'.stopping n hn), fun n ↦ (h'.setup n).trans (h.setup n)⟩

theorem touches (h : Touches name m m')
    (ha : m'.activeOf name = some .deactivating → m.activeOf name = some .deactivating) :
    NoStop m m' where
  wf := h.wheel.wf
  armed hw _ _ ha := h.wheel.armed hw ha
  stopping n hn := by
    by_cases he : n = name
    · subst he
      exact ha hn
    · rwa [h.activeOf_ne he] at hn
  setup := h.setupOf

theorem keeps (h : Keeps name m m') : NoStop m m' :=
  touches h.toTouches fun ha ↦ by rwa [h.active] at ha

theorem puts (h : Puts name s m m') (hs : s ≠ .deactivating) : NoStop m m' :=
  touches h.toTouches fun ha ↦ by
    rw [h.active] at ha
    exact absurd (Option.some.inj ha) hs

theorem jobs (h : JobsOnly m m') : NoStop m m' where
  wf hw := by rwa [h.wheel]
  armed _ _ _ ha := by rwa [h.wheel]
  stopping n hn := by rwa [h.activeOf] at hn
  setup := h.setupOf

theorem recordSpawn {cmd : ControlCommand} {idx : Nat} {pid : Pid} {main : Bool} :
    NoStop m (m.recordSpawn name cmd idx pid main) where
  wf hw := hw
  armed _ _ _ ha := ha
  stopping n hn := by
    by_cases he : n = name
    · subst he
      rwa [activeOf_recordSpawn] at hn
    · rwa [Local.recordSpawn.activeOf_ne he] at hn
  setup := Local.recordSpawn.setupOf

theorem adoptPid {pid : Pid} : NoStop m (m.adoptPid name pid) where
  wf hw := hw
  armed _ _ _ ha := ha
  stopping n hn := by
    by_cases he : n = name
    · subst he
      rwa [activeOf_adoptPid] at hn
    · rwa [Local.adoptPid.activeOf_ne he] at hn
  setup := Local.adoptPid.setupOf

theorem ends (h : Ends w name kind m out) : NoStop m out.1 := by
  induction h with
  | waits hk => exact keeps hk
  | fails msg rest hk _ => exact keeps hk
  | completes hp hs ho _ =>
    have hj := JobsOnly.completeJob ho
    exact (puts hp (by rcases hs with rfl | rfl <;> simp)).trans (jobs hj)
  | stops hp ho =>
    have hj := JobsOnly.completeJob ho
    exact (puts hp (by simp)).trans (jobs hj)
  | spawns idx main hk _ _ _ _ _ _ ih => exact ((keeps hk).trans recordSpawn).trans ih

theorem doStart (h : m.doStart w name = some out) : NoStop m out.1 := by
  obtain ⟨m', ht, ha, he⟩ := (doStart_begins h).ends
  refine (touches ht fun hd ↦ ?_).trans (ends he)
  rcases ha with ha | ha
  · rwa [ha] at hd
  · rw [ha] at hd
    cases hd

theorem scheduleRestart {delay : Nat} (hu : (m.units.get name).isSome) :
    NoStop m (m.scheduleRestart w name delay) where
  wf hw := hw.schedule
  armed hw _ _ ha := ha.schedule hw
  stopping n hn := by
    by_cases he : n = name
    · subst he
      rw [activeOf_scheduleRestart hu] at hn
      cases hn
    · rwa [scheduleRestart_local.activeOf_ne he] at hn
  setup := scheduleRestart_local.setupOf

theorem activeExit (h : ActiveExit w name m out) : NoStop m out.1 := by
  cases h with
  | limit hp | failed hp => exact puts hp (by simp)
  | restart delay hk hu => exact (keeps hk).trans (scheduleRestart hu)
  | ended hp hs ho =>
    have hj := JobsOnly.completeJob ho
    exact (puts hp (by rcases hs with rfl | rfl <;> simp)).trans (jobs hj)

theorem mainExit {exit : ChildExit} (h : m.mainExit w name exit = some out) : NoStop m out.1 := by
  have hf : NoStop m (m.forgetMain name) :=
    touches Touches.forgetMain fun hd ↦ by rwa [activeOf_forgetMain] at hd
  obtain ⟨u, -, h⟩ := mainExit_ends h
  refine hf.trans ?_
  cases h with
  | stopped _ he => exact ends he
  | vanished _ _ hp => exact puts hp (by simp)
  | fails _ hk => exact keeps hk
  | active _ _ he => exact activeExit he

theorem handleControlExit {exit : ChildExit} (h : m.handleControlExit w name exit = some out) :
    NoStop m out.1 := by
  have hf : NoStop m (m.forgetControl name) :=
    touches Touches.forgetControl fun hd ↦ by rwa [activeOf_forgetControl] at hd
  rcases handleControlExit_cases h with ⟨-, he⟩ | ⟨-, m', rfl | ⟨pid, rfl⟩, he⟩ | ⟨-, rfl⟩ | rfl
  · exact hf.trans (ends he)
  · exact hf.trans (ends he)
  · exact (hf.trans adoptPid).trans (ends he)
  · exact hf
  · exact hf

theorem processExit {pid : Pid} {exit : ChildExit} (h : m.processExit w pid exit = some out) :
    NoStop m out.1 := by
  have h₀ : NoStop m (m.forgetPid pid) := ⟨id, fun _ _ _ ha ↦ ha, fun _ hn ↦ hn, fun _ ↦ rfl⟩
  cases processExit_cases h with
  | ignored | main => exact h₀
  | control _ _ _ _ h => exact h₀.trans (handleControlExit h)

end NoStop

theorem stopLimited_congr (h : m'.setupOf name = m.setupOf name) :
    m'.stopLimited name = m.stopLimited name := by
  have he : ∀ m : Manager, m.stopLimited name = (m.setupOf name).any fun s ↦
      s.1 = .service && (s.2.bind UnitFile.service).any fun sc ↦ sc.timeoutStopSec.asDuration.isSome := by
    intro m
    rw [Manager.setupOf, Option.any_map]
    rfl
  rw [he, he, h]

theorem stopTimeoutArmed_iff :
    m.stopTimeoutArmed name ↔ m.wheel.Armed name .stopTimeout := by
  simp only [Manager.stopTimeoutArmed, List.any_eq_true, Option.any_eq_true, Table.mem_keys,
    Bool.and_eq_true, decide_eq_true_eq]
  constructor
  · rintro ⟨id, -, e, he, hu, hk⟩
    exact ⟨id, e, he, hu, hk⟩
  · rintro ⟨id, e, he, hu, hk⟩
    exact ⟨id, ⟨e, he⟩, e, he, hu, hk⟩

/-- The stop of the unit, if there is one, has its deadline. -/
structure Bounded (name : Name) (m : Manager) : Prop where
  wf : m.wheel.Wf
  armed : m.activeOf name = some .deactivating → m.stopLimited name →
    m.wheel.Armed name .stopTimeout

theorem NoStop.bounded (h : NoStop m m') (hb : Bounded name m) : Bounded name m' where
  wf := h.wf hb.wf
  armed ha hl := h.armed hb.wf
    (hb.armed (h.stopping name ha) (by rwa [stopLimited_congr (h.setup name)] at hl))

theorem stopLimited_some (h : m.stopLimited name) :
    ∃ u, m.units.get name = some u ∧ u.kind = .service ∧
      ∃ sc, u.serviceCfg = some sc ∧ sc.timeoutStopSec.asDuration.isSome := by
  obtain ⟨u, hu, h⟩ := (Option.any_eq_true ..).mp h
  obtain ⟨hk, h⟩ := (Bool.and_eq_true ..).mp h
  obtain ⟨sc, hsc, h⟩ := (Option.any_eq_true ..).mp h
  exact ⟨u, hu, of_decide_eq_true hk, sc, hsc, h⟩

theorem Rests.bounded (h : Rests c m m')
    (hc : c = .rearmTimer name → ∃ u, m.units.get name = some u ∧ u.kind = .timer)
    (hb : Bounded name m) : Bounded name m' where
  wf := h.wheel.wf hb.wf
  armed ha hl := by
    cases hn : m.units.get name with
    | none =>
      obtain ⟨u', hu', hk, -⟩ := stopLimited_some hl
      rw [Manager.activeOf, hu', Option.map_some, Option.some.injEq] at ha
      rcases (h.added name u' hn hu').active with h' | ⟨h', -⟩ <;> rw [ha] at h' <;> cases h'
    | some u =>
      have hs : (m.units.get name).isSome := by rw [hn]; rfl
      rw [h.activeOf hs] at ha
      rw [stopLimited_congr (h.setupOf hs)] at hl
      obtain ⟨v, hv, hk, -⟩ := stopLimited_some hl
      refine h.armed hb.wf hv (by simp [hk]) (fun he ↦ ?_) (hb.armed ha hl)
      obtain ⟨v', hv', hk'⟩ := hc he
      rw [hv] at hv'
      cases hv'
      rw [hk] at hk'
      cases hk'

/-- `ExecStop=` runs, or the stop fails. -/
theorem spawnControl_stop {u : Unit} {sc : ServiceConfig}
    (h : m.spawnControl w name .stop 0 = some out) (hu : m.units.get name = some u)
    (hsc : u.serviceCfg = some sc) (he : sc.execStop.isEmpty = false) :
    (Manager.spawnRefused w sc .stop = none ∧ ∃ pid, w.spawn .stop = .ok pid) ∨
      ∃ msg, .failUnit name msg ∈ out.2 := by
  obtain ⟨u', hu', h⟩ := Option.bind_eq_some_iff.mp h
  rw [hu] at hu'
  cases hu'
  rw [hsc] at h
  dsimp only at h
  split at h
  · next hi =>
    rw [Manager.execSlice, List.getElem?_eq_none_iff] at hi
    rw [List.isEmpty_eq_false_iff, ← List.length_pos_iff_ne_nil] at he
    omega
  · split at h
    · cases h
      exact .inr ⟨_, List.mem_cons_self ..⟩
    · next hr =>
      split at h
      · next pid hp => exact .inl ⟨hr, pid, hp⟩
      · split at h
        · next hi => simp at hi
        · cases h
          exact .inr ⟨_, List.mem_cons_self ..⟩

theorem armed_armStopTimeout {u : Unit} (hl : u.stopLimited) :
    (m.armStopTimeout w name u).wheel.Armed name .stopTimeout := by
  obtain ⟨sc, hsc, ht⟩ := (Option.any_eq_true ..).mp ((Bool.and_eq_true ..).mp hl).2
  rw [Manager.armStopTimeout, hsc]
  exact TimerWheel.armed_arm ht

/-- A stop of a service arms its deadline, or it is over, or it fails, or `ExecStop=` runs. -/
theorem stopService_armed {u : Unit} (h : m.stopService w name = some out)
    (hu : m.units.get name = some u) (hl : u.stopLimited)
    (ha : out.1.activeOf name = some .deactivating) :
    out.1.wheel.Armed name .stopTimeout ∨ (∃ c ∈ out.2, c.endsStop name) ∨ m.runsExecStop w name := by
  obtain ⟨u', hu', h⟩ := Option.bind_eq_some_iff.mp h
  rw [hu] at hu'
  cases hu'
  split at h
  · cases h
    exact .inl (armed_armStopTimeout hl)
  · next hp =>
    split at h
    · rw [finalizeStop_activeOf h] at ha
      cases ha
    · next he =>
      obtain ⟨sc, hsc, -⟩ := (Option.any_eq_true ..).mp ((Bool.and_eq_true ..).mp hl).2
      have he : sc.execStop.isEmpty = false := by simpa [hsc] using he
      have hu' : (m.modifyUnit name fun u ↦ { u with sub := .stop }).units.get name =
          some { u with sub := .stop } := by
        simp [Manager.modifyUnit, Table.get_modify, hu]
      rcases spawnControl_stop h hu' hsc he with ⟨hr, pid, hs⟩ | ⟨msg, hc⟩
      · refine .inr (.inr ?_)
        simp [Manager.runsExecStop, hu, hsc, hp, he, hr, hs, Except.toOption]
      · exact .inr (.inl ⟨_, hc, rfl⟩)

theorem setActive_processes {now : Nat} {s : ActiveState} {sub : SubState} {r : UnitResult} {u : Unit} :
    Manager.hasProcesses w (u.setActive now s sub r) = Manager.hasProcesses w u := by
  unfold Unit.setActive
  cases s <;> dsimp only <;> (try split) <;> rfl

theorem setActive_runsExecStop {sub : SubState} {r : UnitResult} :
    (m.setActive w name s sub r).runsExecStop w name = m.runsExecStop w name := by
  simp only [Manager.runsExecStop, Manager.setActive, Manager.modifyUnit, Table.get_modify, if_pos,
    Option.any_map]
  congr 1
  funext u
  have hf := (setActive_setup w.now s sub r u).2
  simp only [setActive_processes, Unit.serviceCfg, hf]

theorem doStop_armed (h : m.doStop w name = some out) (hl : m.stopLimited name)
    (ha : out.1.activeOf name = some .deactivating) :
    out.1.wheel.Armed name .stopTimeout ∨ (∃ c ∈ out.2, c.endsStop name) ∨ m.runsExecStop w name := by
  obtain ⟨u, hu, h⟩ := Option.bind_eq_some_iff.mp h
  obtain ⟨v, hv, hk, -⟩ := stopLimited_some hl
  rw [hu] at hv
  cases hv
  rw [hk] at h
  have hl' : u.stopLimited := by simpa [Manager.stopLimited, hu] using hl
  have hs := setActive_setup w.now .deactivating .stop .success u
  have hr : (m.setActive w name .deactivating .stop .success).runsExecStop w name = _ :=
    setActive_runsExecStop
  rw [← hr]
  refine stopService_armed h ?_ (u := u.setActive w.now .deactivating .stop .success) ?_ ha
  · simp [Manager.setActive, Manager.modifyUnit, Table.get_modify, hu]
  · rw [Unit.stopLimited, Unit.serviceCfg, hs.1, hs.2]
    exact hl'

theorem stopsLimited_iff :
    (m.units.get name).any Unit.stopsLimited ↔
      m.activeOf name = some .deactivating ∧ m.stopLimited name := by
  cases h : m.units.get name <;>
    simp [Manager.activeOf, Manager.stopLimited, Unit.stopsLimited, h]

theorem Adds.stopsLimited (h : Adds m m') (ha : m'.activeOf name = some .deactivating)
    (hl : m'.stopLimited name) : m.activeOf name = some .deactivating ∧ m.stopLimited name := by
  cases hn : m.units.get name with
  | none =>
    obtain ⟨u', hu', hk, -⟩ := stopLimited_some hl
    rw [Manager.activeOf, hu', Option.map_some, Option.some.injEq] at ha
    rcases (h.units.added name u' hn hu').active with h' | ⟨h', -⟩ <;> rw [ha] at h' <;> cases h'
  | some u =>
    have hu' := h.units.kept name u hn
    rw [Manager.activeOf, hu'] at ha
    rw [Manager.stopLimited, hu'] at hl
    exact ⟨by rw [Manager.activeOf, hn]; exact ha, by rw [Manager.stopLimited, hn]; exact hl⟩

theorem doStop_frame (h : m.doStop w name = some out) :
    (m.wheel.Wf → out.1.wheel.Wf) ∧
      (m.wheel.Wf → ∀ {n kind}, m.wheel.Armed n kind → out.1.wheel.Armed n kind) ∧
      ∀ n, out.1.setupOf n = m.setupOf n ∧ (n ≠ name → out.1.activeOf n = m.activeOf n) := by
  obtain ⟨m', hp, he⟩ := doStop_begins h
  have hs := NoStop.ends he
  refine ⟨fun hw ↦ hs.wf (hp.wheel.wf hw), fun hw _ _ ha ↦ hs.armed (hp.wheel.wf hw)
    (hp.wheel.armed hw ha), fun n ↦ ⟨(hs.setup n).trans (hp.toLocal.setupOf n), fun hn ↦ ?_⟩⟩
  obtain ⟨m₀, hl, hj⟩ := he.locals
  rw [hj.activeOf, hl.activeOf_ne hn, hp.activeOf_ne hn]

/-- What one call does to the deadline of a stop. -/
theorem exec_bounded (h : exec w c m = some out) (hc : keepsStopTimeouts w c m)
    (hr : c = .rearmTimer name → ∃ u, m.units.get name = some u ∧ u.kind = .timer)
    (hw : m.wheel.Wf) :
    out.1.wheel.Wf ∧ (Bounded name m → out.1.activeOf name = some .deactivating →
      out.1.stopLimited name →
      out.1.wheel.Armed name .stopTimeout ∨ ∃ c ∈ out.2, c.endsStop name) := by
  have step {m₀ m₁ : Manager} {cs : List Call} (hr' : Rests c m m₀) (hs : NoStop m₀ m₁) :
      m₁.wheel.Wf ∧ (Bounded name m → m₁.activeOf name = some .deactivating →
        m₁.stopLimited name → m₁.wheel.Armed name .stopTimeout ∨ ∃ c ∈ cs, c.endsStop name) :=
    ⟨hs.wf (hr'.wheel.wf hw), fun hb h₁ h₂ ↦ .inl ((hs.bounded (hr'.bounded hr hb)).armed h₁ h₂)⟩
  cases exec_acts h with
  | rests hr' => exact step hr' ⟨id, fun _ _ _ ha ↦ ha, fun _ ha ↦ ha, fun _ ↦ rfl⟩
  | pops =>
    refine ⟨TimerWheel.NoService.popDue.wf hw, fun hb ha hl ↦ ?_⟩
    have hp : (m.wheel.popDue w.now).2.Armed name .stopTimeout ∨ _ :=
      TimerWheel.armed_popDue (hb.armed ha hl)
    rcases hp with h' | ⟨e, he, hu, hk⟩
    · exact .inl h'
    · refine .inr ⟨.fireTimer e.unit e.kind, ?_, by rw [hk]; exact hu⟩
      exact List.mem_append_left _ (List.mem_map.mpr ⟨e, he, rfl⟩)
  | shuts hs =>
    have hu : (m.shutdown w).1 = { m with shuttingDown := true, wheel := {} } := by
      rw [Manager.shutdown, if_neg (by simp [hs])]
    rw [hu]
    refine ⟨TimerWheel.wf_empty, fun _ ha hl ↦ absurd (stopsLimited_iff.mpr ⟨ha, hl⟩) ?_⟩
    simp only [keepsStopTimeouts, hs, Bool.false_or, List.all_eq_true] at hc
    obtain ⟨u, hu, -⟩ := stopLimited_some hl
    simpa using hc name (Table.mem_keys.mpr ⟨u, hu⟩)
  | loads hl =>
    obtain ⟨m₁, had, hq, hs⟩ := loadAll_cases hl
    refine ⟨hs.wheel.wf TimerWheel.wf_empty, fun _ ha hlim ↦ ?_⟩
    rw [hq.activeOf] at ha
    rw [stopLimited_congr (hq.setupOf name)] at hlim
    obtain ⟨ha, hlim⟩ := had.stopsLimited ha hlim
    refine absurd (stopsLimited_iff.mpr ⟨ha, hlim⟩) ?_
    simp only [keepsStopTimeouts, List.all_eq_true] at hc
    obtain ⟨u, hu, -⟩ := stopLimited_some hlim
    simpa using hc name (Table.mem_keys.mpr ⟨u, hu⟩)
  | removes device =>
    refine ⟨hw, fun hb ha hl ↦ .inl ?_⟩
    obtain ⟨u, hu, -⟩ := stopLimited_some hl
    have hu' : m.units.get name = some u := udevRemove_get hu
    rw [Manager.activeOf, hu] at ha
    rw [Manager.stopLimited, hu] at hl
    exact hb.armed (by rw [Manager.activeOf, hu', ha]) (by rw [Manager.stopLimited, hu', hl])
  | revives hp | resets _ hp => exact step .refl (.puts hp (by simp))
  | begins _ _ _ _ _ hr' ho => exact step hr' (.doStart ho)
  | stops hj ho hs hm' h' =>
    next id job m' =>
    have hw' := (NoStop.jobs hm').wf hw
    obtain ⟨hwf, harm, hact⟩ := doStop_frame h'
    refine ⟨hwf hw', fun hb ha hl ↦ ?_⟩
    have hl' : m'.stopLimited name := by
      rwa [stopLimited_congr (hact name).1] at hl
    by_cases hn : name = job.unit
    · subst hn
      rcases doStop_armed h' hl' ha with h₁ | h₁ | h₁
      · exact .inl h₁
      · exact .inr h₁
      · have hr : m.runsExecStop w job.unit := by rwa [Manager.runsExecStop, ← hm'.units]
        have hlm : m.stopLimited job.unit := by rwa [Manager.stopLimited, ← hm'.units]
        have hc : m.stopTimeoutArmed job.unit := by
          simpa [keepsStopTimeouts, hj, hs, hr, hlm] using hc
        have harmed := stopTimeoutArmed_iff.mp hc
        rw [← hm'.wheel] at harmed
        exact .inl (harm hw' harmed)
    · rw [(hact name).2 hn] at ha
      exact .inl (harm hw' (((NoStop.jobs hm').bounded hb).armed ha hl'))
  | reloads ho => exact step .refl (.ends (reload_ends ho .restart))
  | runs _ hr' ha ho =>
    have hj := JobsOnly.completeJob ho
    refine step hr' (NoStop.trans (.puts (.setActive ?_ (by simp)) (by simp)) (.jobs hj))
    exact isSome_of_activeOf ha
  | fails hu hj =>
    exact step .refl (NoStop.trans (.puts (.setActive hu (by simp)) (by simp)) (.jobs hj))
  | restarts _ _ ho =>
    have hs := NoStop.doStart ho
    exact step .refl hs
  | expires _ ho => exact step .refl (.ends (Keeps.killTree.ends (finalizeStop_ends ho)))
  | exits ho => exact step .refl (.processExit ho)
  | mainExits ho => exact step .refl (.mainExit ho)

theorem exec_endsStop (h : exec w c m = some out) (hc : c.endsStop name)
    (hl : out.1.stopLimited name) : out.1.activeOf name ≠ some .deactivating := by
  cases c with
  | fireTimer n kind =>
    cases kind with
    | stopTimeout =>
      obtain rfl : n = name := hc
      cases hu : m.units.get n with
      | none =>
        have h' : m.fireTimer w n .stopTimeout = some (m, []) := by
          rw [Manager.fireTimer, hu, Option.filter_none, Manager.fireServiceTimer, hu]
        cases h'.symm.trans h
        simp [Manager.activeOf, hu]
      | some u =>
        rw [stopLimited_congr (exec_setup h (by simp) (by simp) (by simp [hu]))] at hl
        obtain ⟨v, hv, hk, -⟩ := stopLimited_some hl
        rw [hu] at hv
        cases hv
        have hf : (m.units.get n).filter (fun u ↦ u.kind = .timer) = none := by simp [hu, hk]
        change m.fireTimer w n .stopTimeout = some out at h
        rw [Manager.fireTimer, hf, Manager.fireServiceTimer, hu] at h
        dsimp only at h
        split at h
        · rw [finalizeStop_activeOf h]
          simp
        · next ha =>
          cases h
          rw [Manager.activeOf, hu]
          simpa using ha
    | _ => cases hc
  | failUnit n msg =>
    obtain rfl : n = name := hc
    rw [failUnit_activeOf h]
    simp
  | _ => cases hc

/-- The deadlines are there or about to be used, and only timer units have theirs set anew. -/
structure Timed (a : Config Manager Call) : Prop where
  wf : a.state.wheel.Wf
  armed : ∀ name, a.state.activeOf name = some .deactivating → a.state.stopLimited name →
    a.state.wheel.Armed name .stopTimeout ∨ ∃ c ∈ a.todo, c.endsStop name
  rearms : ∀ name, .rearmTimer name ∈ a.todo → ∃ u, a.state.units.get name = some u ∧ u.kind = .timer
  alone : Alone a.todo

theorem isTimer_setup {n : Name} :
    (∃ u, m.units.get n = some u ∧ u.kind = .timer) ↔ ∃ s, m.setupOf n = some s ∧ s.1 = .timer := by
  cases h : m.units.get n <;> simp [Manager.setupOf, h]

theorem Timed.step {rest : List Call} (h : Timed ⟨m, c :: rest⟩) (hc : keepsStopTimeouts w c m)
    (he : exec w c m = some out) : Timed ⟨out.1, out.2 ++ rest⟩ := by
  have hr := h.rearms
  have kept {n : Name} (hn : ∃ u, m.units.get n = some u ∧ u.kind = .timer)
      (hl : c ≠ .loadAll) (hd : ∀ device, c ≠ .udevRemove device) :
      ∃ u, out.1.units.get n = some u ∧ u.kind = .timer := by
    have hs : (m.units.get n).isSome := by
      obtain ⟨u, hu, -⟩ := hn
      rw [hu]
      rfl
    rw [isTimer_setup, exec_setup he hl hd hs]
    exact isTimer_setup.mp hn
  refine ⟨(exec_bounded he hc (fun hn ↦ hr "" (by rw [← hn]; exact List.mem_cons_self ..)) h.wf).1,
    fun name ha hl ↦ ?_, fun n hn ↦ ?_, h.alone.step he⟩
  · by_cases hrest : ∃ c ∈ rest, c.endsStop name
    · obtain ⟨c', hc', hs⟩ := hrest
      exact .inr ⟨c', List.mem_append_right _ hc', hs⟩
    · have hcs : ¬ c.endsStop name := fun hcs ↦ exec_endsStop he hcs hl ha
      have hb : Bounded name m := by
        refine ⟨h.wf, fun ha' hl' ↦ (h.armed name ha' hl').resolve_right ?_⟩
        rintro ⟨c', hc', hs⟩
        rcases List.mem_cons.mp hc' with rfl | hc'
        · exact hcs hs
        · exact hrest ⟨c', hc', hs⟩
      have hrear : c = .rearmTimer name → _ := fun hn ↦ hr name (by rw [hn]; exact List.mem_cons_self ..)
      rcases (exec_bounded he hc hrear h.wf).2 hb ha hl with harm | ⟨c', hc', hs⟩
      · exact .inl harm
      · exact .inr ⟨c', List.mem_append_left _ hc', hs⟩
  · rcases List.mem_append.mp hn with hn | hn
    · have hd := exec_calls he hn
      rcases hd with hd | hd
      · cases hd
      · cases hd with
        | rearm hu hk => exact kept ⟨_, hu, hk⟩ (by simp) (by simp)
    · have hnr : c.requested = false := by
        by_contra hreq
        rw [h.alone.tail_nil (by simpa using hreq)] at hn
        cases hn
      refine kept (hr n (List.mem_cons_of_mem _ hn)) (fun hl ↦ ?_) fun device hd ↦ ?_
      · rw [hl] at hnr
        cases hnr
      · rw [hd] at hnr
        cases hnr

/-- A machine with one service that ignores the stop signal. -/
def stubbornMachine : World :=
  .ofFiles [("a.service", { service := some { execStart := [⟨["a"], false⟩] } })]

/-- The service is started as process 7 and then stopped. -/
def startAndStop : List (Move Call World) :=
  [.arrive (.start "a.service" .replace), .calls { stubbornMachine with spawn := fun _ ↦ .ok 7 } 3,
    .calls stubbornMachine 20, .arrive (.stop "a.service" .replace), .calls stubbornMachine 20]

/-- Process 7 lives and the service is being stopped. -/
def stopping (a : Config Manager Call) : Bool :=
  a.todo.isEmpty && (a.state.units.get "a.service").any fun u ↦
    u.active = .deactivating && u.stopLimited && a.state.processAlive u

def stoppingService : Shown (keepsStopTimeouts · · ·) stopping :=
  .play _ stubbornMachine startAndStop _ (by decide +kernel)

end Rystemd
