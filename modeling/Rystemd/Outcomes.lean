import Rystemd.Frames

namespace Rystemd

variable {w : World} {name : Name} {m m' m'' : Manager} {s : ActiveState} {out : Out}
  {kind : JobKind}

/-- Which job the end of a command can finish. -/
def Finishes : ControlCommand → JobKind → Prop
  | .startPre, kind | .start, kind => kind = .start
  | .stop, kind => kind = .stop
  | .startPost, _ | .reload, _ | .kill, _ => True

/-- No process came or went, and the unit knows the same processes. -/
structure SameProcs (name : Name) (m m' : Manager) : Prop where
  pidUnit : m'.pidUnit = m.pidUnit
  children : m'.kernel.children = m.kernel.children
  signals : Signals m m'
  procs : (m'.units.get name).map Unit.procs = (m.units.get name).map Unit.procs

/-- How a procedure about one unit can end. The unit waits for a process or a timer, or it
fails, or its start is over (`kind` is `start`), or its stop is over (`kind` is `stop`). -/
inductive Ends (w : World) (name : Name) : JobKind → Manager → Out → Prop
  | waits {kind : JobKind} {m m' : Manager} : Keeps name m m' → Ends w name kind m (m', [])
  | fails {kind : JobKind} {m m' : Manager} (msg : String) (rest : List Call) : Keeps name m m' →
      (rest = [] ∨ rest = [.armStartTimeout name]) →
      Ends w name kind m (m', .failUnit name msg :: rest)
  | completes {m m' : Manager} {s : ActiveState} {out : Out} : Puts name s m m' →
      (s = .active ∨ s = .inactive) → m'.completeStartJob w name = some out →
      (m'.units.get name).map Unit.procs = (m.units.get name).map Unit.procs →
      Ends w name .start m out
  | stops {m m' : Manager} {out : Out} : Puts name .inactive m m' →
      (m'.completeJob w name fun kind ↦ kind = .stop || kind = .restart) = some out →
      Ends w name .stop m out
  | spawns {kind : JobKind} {m m' : Manager} {cmd : ControlCommand} {pid : Pid} {out : Out}
      (idx : Nat) (main : Bool) : Keeps name m m' →
      ((m'.units.get name).bind Unit.serviceCfg).isSome →
      w.spawn cmd = .ok pid → Finishes cmd kind → (main → cmd = .start) →
      SameProcs name (m'.recordSpawn name cmd idx pid main) out.1 →
      Ends w name kind (m'.recordSpawn name cmd idx pid main) out → Ends w name kind m out

theorem Keeps.ends (h : Keeps name m m') (h' : Ends w name kind m' out) : Ends w name kind m out := by
  cases h' with
  | waits hk => exact .waits (h.trans hk)
  | fails msg rest hk hr => exact .fails msg rest (h.trans hk) hr
  | completes hp hs ho hprocs => exact .completes (h.puts hp) hs ho (hprocs.trans h.procs)
  | stops hp ho => exact .stops (h.puts hp) ho
  | spawns idx main hk hu hp hf hm hs he => exact .spawns idx main (h.trans hk) hu hp hf hm hs he

theorem Ends.of_modifyUnit {f : Unit → Unit} (h : Ends w name kind (m.modifyUnit name f) out)
    (hf : ∀ u, ((f u).kind = u.kind ∧ (f u).file = u.file) ∧ (f u).active = u.active ∧
      (f u).procs = u.procs ∧ ((f u).sub = .autoRestart → u.sub = .autoRestart)) :
    Ends w name kind m out :=
  (Keeps.modifyUnit hf).ends h

theorem completeJob_cases {kinds : JobKind → Bool} (h : m.completeJob w name kinds = some out) :
    (m.unitJob.get name = none ∧ out = (m, [.timerDepCheck])) ∨
    ∃ jid job, m.unitJob.get name = some jid ∧ m.jobs.get jid = some job ∧
      ((kinds job.kind = true ∧ out = (m.finishJob w jid).andThen [.timerDepCheck]) ∨
        (kinds job.kind = false ∧ out = (m, [.timerDepCheck]))) := by
  unfold Manager.completeJob at h
  split at h
  · next hx => cases h; exact .inl ⟨hx, rfl⟩
  · next jid hx =>
    obtain ⟨job, hj, h⟩ := Option.bind_eq_some_iff.mp h
    cases h
    refine .inr ⟨jid, job, hx, hj, ?_⟩
    cases hk : kinds job.kind with
    | true => exact .inl ⟨rfl, rfl⟩
    | false => exact .inr ⟨rfl, rfl⟩

/-- The end of a job fails no unit. -/
theorem finishJob_plain (w : World) (m : Manager) (name : Name) (id : JobId) :
    (m.finishJob w id).1.socketTriggers = m.socketTriggers ∧
      ∀ msg, .failUnit name msg ∉ (m.finishJob w id).2 := by
  unfold Manager.finishJob
  split
  · simp
  · refine ⟨rfl, fun msg hmem ↦ ?_⟩
    obtain hmem | hmem := List.mem_append.mp hmem
    · simp [Manager.onJobCompleted] at hmem
    · split at hmem
      · simp at hmem
      · cases hmem

theorem SameProcs.trans (h : SameProcs name m m') (h' : SameProcs name m' m'') : SameProcs name m m'' :=
  ⟨h'.pidUnit.trans h.pidUnit, h'.children.trans h.children, h.signals.trans h'.signals,
    h'.procs.trans h.procs⟩

theorem Keeps.sameProcs (h : Keeps name m m') : SameProcs name m m' :=
  ⟨h.pidUnit, h.children, h.signals, h.procs⟩

theorem completeJob_sameProcs {kinds : JobKind → Bool} (h : m.completeJob w name kinds = some out) :
    SameProcs name m out.1 := by
  rcases completeJob_cases h with ⟨-, rfl⟩ | ⟨jid, _, -, -, ⟨-, rfl⟩ | ⟨-, rfl⟩⟩
  · exact ⟨rfl, rfl, .refl, rfl⟩
  · change SameProcs name m (m.finishJob w jid).1
    unfold Manager.finishJob
    split <;> exact ⟨rfl, rfl, .refl, rfl⟩
  · exact ⟨rfl, rfl, .refl, rfl⟩

theorem finalized_procs {now : Nat} {u : Unit} : (u.finalized now).procs = (none, none, none, none) := by
  rw [Unit.finalized, setActive_procs, Unit.procs]

theorem Unit.Forgets.of_none {u u' : Unit} (h : u'.procs = (none, none, none, none)) : u.Forgets u' := by
  simp only [Unit.procs, Prod.mk.injEq] at h
  exact ⟨.inr h.1, .inr h.2.2.1, .inr h.2.2.2⟩

theorem finalized_forgets {now : Nat} {u : Unit} : u.Forgets (u.finalized now) :=
  .of_none finalized_procs

theorem finalizeStop_puts (h : m.finalizeStop w name = some out) :
    ∃ m', Puts name .inactive m m' ∧
      (m'.completeJob w name fun kind ↦ kind = .stop || kind = .restart) = some out := by
  obtain ⟨u, hu, h⟩ := Option.bind_eq_some_iff.mp h
  refine ⟨_, Keeps.releaseBusNameWatch.puts ?_, h⟩
  refine ⟨.modifyUnit (fun _ ↦ setActive_setup ..)
    (fun _ _ ↦ setActive_restartOk _ _ _ (by simp)) fun _ ↦ finalized_forgets, ?_⟩
  rw [activeOf_modifyUnit]
  simp [Manager.releaseBusNameWatch, hu, Unit.finalized]

theorem finalizeStop_ends (h : m.finalizeStop w name = some out) : Ends w name .stop m out := by
  obtain ⟨m', hp, h⟩ := finalizeStop_puts h
  exact .stops hp h

theorem exitedState_active (u : Unit) : u.exitedState.1 = .active ∨ u.exitedState.1 = .inactive := by
  unfold Unit.exitedState
  split
  · exact .inl rfl
  · exact .inr rfl

theorem exitedState_sub (u : Unit) : u.exitedState.2 ≠ .autoRestart := by
  unfold Unit.exitedState
  split <;> exact nofun

theorem setActive_sameProcs {sub : SubState} {r : UnitResult} :
    ((m.setActive w name s sub r).units.get name).map Unit.procs =
      (m.units.get name).map Unit.procs := by
  rw [Manager.setActive, Manager.modifyUnit, Table.get_modify, if_pos rfl, Option.map_map]
  congr 1
  funext u
  exact setActive_procs ..

theorem oneshotDone_ends (h : m.oneshotDone w name = some out) : Ends w name .start m out := by
  obtain ⟨u, hu, h⟩ := Option.bind_eq_some_iff.mp h
  exact .completes (.setActive (by rw [hu]; rfl) (exitedState_sub u)) (exitedState_active u) h
    setActive_sameProcs

theorem beginBusNameWait_keeps {sc : ServiceConfig} (hu : (m.units.get name).isSome) :
    Keeps name m (m.beginBusNameWait w name sc).1 := by
  unfold Manager.beginBusNameWait
  split
  · exact .setResult
  · next bn _ =>
    have hs : Keeps name m (m.modifyUnit name fun u ↦ { u with sub := .waitingForBus }) :=
      .modifyUnit fun _ ↦ ⟨⟨rfl, rfl⟩, rfl, rfl, nofun⟩
    have hb : Keeps name m ((m.modifyUnit name fun u ↦ { u with sub := .waitingForBus }).watchBusName
        name bn) := hs.trans .watchBusName
    exact hb.trans (.armTimeout (by rwa [hb.isSome]) (by simp) rfl)

theorem beginBusNameWait_ends {sc : ServiceConfig} (hu : (m.units.get name).isSome) :
    Ends w name kind m (m.beginBusNameWait w name sc) := by
  have hk : Keeps name m (m.beginBusNameWait w name sc).1 := beginBusNameWait_keeps hu
  unfold Manager.beginBusNameWait at hk ⊢
  split at hk
  · exact .fails _ _ hk (.inr rfl)
  · exact .waits hk

theorem spawned_ends {sc : ServiceConfig} {cmd : ControlCommand} {idx : Nat} {pid : Pid}
    (hsc : ((m.units.get name).bind Unit.serviceCfg).isSome) (hp : w.spawn cmd = .ok pid)
    (hk : Finishes cmd kind) (h : m.spawned w name sc cmd idx pid = some out) :
    Ends w name kind m out := by
  unfold Manager.spawned at h
  extract_lets main m₁ m₂ at h
  have hmain : main → cmd = .start := fun h ↦ of_decide_eq_true ((Bool.and_eq_true ..).mp h).1
  suffices SameProcs name m₁ out.1 ∧ Ends w name kind m₁ out from
    .spawns idx main .refl hsc hp hk hmain this.1 this.2
  have hu : (m.units.get name).isSome := Option.isSome_of_isSome_bind hsc
  have hu' : (m₁.units.get name).isSome := by rwa [Local.recordSpawn.isSome]
  split at h
  · next h' =>
    obtain rfl := hmain h'
    obtain rfl : kind = .start := hk
    split at h
    · have hp : Puts name .active m₁ (m₁.setActive w name .active .running .success) :=
        .setActive hu' (by simp)
      have hs : SameProcs name m₁ (m₁.setActive w name .active .running .success) :=
        ⟨rfl, rfl, .refl, setActive_sameProcs⟩
      exact ⟨hs.trans (completeJob_sameProcs h), .completes hp (.inl rfl) h setActive_sameProcs⟩
    · split at h
      · cases h
        exact ⟨(beginBusNameWait_keeps hu').sameProcs, beginBusNameWait_ends hu'⟩
      · cases h
        have ht : Keeps name m₁ (m₁.armTimeout w name .startTimeout sc.timeoutStartSec) :=
          .armTimeout hu' (by simp) rfl
        exact ⟨ht.sameProcs, .waits ht⟩
  · cases h
    have h₂ : Keeps name m₁ m₂ := .modifyUnit fun _ ↦ by
      split
      · exact ⟨⟨rfl, rfl⟩, rfl, rfl, nofun⟩
      · exact ⟨⟨rfl, rfl⟩, rfl, rfl, id⟩
    have ht : Keeps name m₁ (m₂.armTimeout w name .startTimeout sc.timeoutStartSec) :=
      h₂.trans (.armTimeout (by rwa [h₂.isSome]) (by simp) rfl)
    exact ⟨ht.sameProcs, .waits ht⟩

theorem spawnCommand_ends {cmd : ControlCommand} {idx : Nat} {done : Manager → Option Out}
    (h : m.spawnCommand w name cmd idx done = some out) (hk : Finishes cmd kind)
    (hdone : ∀ {m' out'}, done m' = some out' → Ends w name kind m' out') :
    Ends w name kind m out := by
  obtain ⟨u, hu, h⟩ := Option.bind_eq_some_iff.mp h
  split at h
  · exact hdone h
  · next sc hsc =>
    split at h
    · exact hdone h
    · split at h
      · cases h
        exact .fails _ _ .setResult (.inl rfl)
      · have hc : Keeps name m (m.ensureCgroup w name) := .ensureCgroup
        split at h
        · refine hc.ends (spawned_ends ?_ (by assumption) hk h)
          rw [hc.serviceOf_eq, hu, Option.bind_some, hsc]
          rfl
        · split at h
          · exact hc.ends (hdone h)
          · cases h
            exact .fails _ _ (hc.trans .setResult) (.inl rfl)

theorem runMainStart_ends {idx : Nat} (h : m.runMainStart w name idx = some out) :
    Ends w name .start m out :=
  spawnCommand_ends h rfl oneshotDone_ends

theorem stageDone_ends {cmd : ControlCommand} (h : m.stageDone w name cmd = some out)
    (hk : Finishes cmd kind) : Ends w name kind m out := by
  cases cmd with
  | startPre => cases hk; exact runMainStart_ends h
  | start => cases hk; exact oneshotDone_ends h
  | stop => cases hk; exact finalizeStop_ends h
  | reload | startPost | kill => cases h; exact .waits .refl

theorem spawnControl_ends {cmd : ControlCommand} {idx : Nat}
    (h : m.spawnControl w name cmd idx = some out) (hk : Finishes cmd kind) :
    Ends w name kind m out :=
  spawnCommand_ends h hk fun h ↦ stageDone_ends h hk

theorem runStartPostOrFinish_ends (h : m.runStartPostOrFinish w name = some out) :
    Ends w name .start m out := by
  obtain ⟨u, hu, h⟩ := Option.bind_eq_some_iff.mp h
  split at h
  · exact spawnControl_ends h trivial
  · exact oneshotDone_ends h

/-- What the exit of a control process does, by the command and the state of the unit. -/
inductive ControlExit (w : World) (name : Name) (exit : ChildExit) (u : Unit) (m : Manager) : Out → Prop
  | stopped {out : Out} : u.active = .deactivating ∨ m.hasStopJob name → Ends w name .stop m out →
      ControlExit w name exit u m out
  | advances {out : Out} : u.active ≠ .deactivating →
      (u.controlCommand = some .startPre ∨ u.controlCommand = some .start) →
      Ends w name .start m out → ControlExit w name exit u m out
  | forks {m' : Manager} {out : Out} : u.active ≠ .deactivating → u.controlCommand = some .start →
      u.serviceCfg.any (fun sc ↦ sc.serviceType = .forking) →
      m' = (Manager.readForkedPidfile w u).elim m (m.adoptPid name) →
      (m'.setActive w name .active .running .success).completeStartJob w name = some out →
      ControlExit w name exit u m out
  | posted {out : Out} : u.active ≠ .deactivating → u.controlCommand = some .startPost →
      m.oneshotDone w name = some out → ControlExit w name exit u m out
  | main : u.active ≠ .deactivating → ControlExit w name exit u m (m, [.mainExit name exit])
  | ignored : ControlExit w name exit u m (m, [])

theorem handleForkingStartDone_eq {u : Unit} (hu : m.units.get name = some u)
    (h : m.handleForkingStartDone w name = some out) :
    (((Manager.readForkedPidfile w u).elim m (m.adoptPid name)).setActive w name .active .running
      .success).completeStartJob w name = some out := by
  obtain ⟨u', hu', h⟩ := Option.bind_eq_some_iff.mp h
  rw [hu] at hu'
  cases hu'
  exact h

theorem controlExited_ends {u u' : Unit} {exit : ChildExit} (hu : m.units.get name = some u')
    (hcfg : u'.file = u.file) (ha : u.active ≠ .deactivating) (hstop : u.controlCommand ≠ some .stop)
    (h : m.controlExited w name u exit = some out) : ControlExit w name exit u m out := by
  have fails {r msg} : Ends w name .start m (m.setResult name r, [.failUnit name msg]) :=
    .fails _ _ .setResult (.inl rfl)
  unfold Manager.controlExited at h
  extract_lets ignoreFailure ok at h
  split at h
  · next hc =>
    split at h
    · exact .advances ha (.inl hc) (runMainStart_ends h)
    · cases h
      exact .advances ha (.inl hc) fails
  · next hc =>
    split at h
    · split at h
      · refine .advances ha (.inr hc) ?_
        split at h
        · exact (runMainStart_ends h).of_modifyUnit fun _ ↦ ⟨⟨rfl, rfl⟩, rfl, rfl, id⟩
        · exact (runStartPostOrFinish_ends h).of_modifyUnit fun _ ↦ ⟨⟨rfl, rfl⟩, rfl, rfl, id⟩
      · cases h
        exact .advances ha (.inr hc) fails
    · next ht =>
      have hf : u.serviceCfg.any (fun sc ↦ sc.serviceType = .forking) := by
        cases hs : u.serviceCfg with
        | none => simp [hs] at ht
        | some sc => simpa [hs] using ht
      have hr : Manager.readForkedPidfile w u' = Manager.readForkedPidfile w u := by
        simp only [Manager.readForkedPidfile, Unit.serviceCfg, hcfg]
      exact .forks ha hc hf rfl (by rw [← hr]; exact handleForkingStartDone_eq hu h)
    · cases h
      exact .main ha
  · next hc => exact .posted ha hc h
  · next hc => exact absurd hc hstop
  · cases h
    exact .ignored
  · cases h
    exact .ignored
  · cases h
    exact .main ha

theorem Touches.forgetControl : Touches name m (m.forgetControl name) :=
  .modifyUnit (fun _ ↦ ⟨rfl, rfl⟩) (fun _ hu ↦ hu) fun _ ↦ ⟨.inl rfl, .inr rfl, .inr rfl⟩

theorem activeOf_forgetControl : (m.forgetControl name).activeOf name = m.activeOf name := by
  rw [Manager.forgetControl, activeOf_modifyUnit, Manager.activeOf]

theorem handleControlExit_ends {exit : ChildExit} (h : m.handleControlExit w name exit = some out) :
    ∃ u, m.units.get name = some u ∧ ControlExit w name exit u (m.forgetControl name) out := by
  obtain ⟨u, hu, h⟩ := Option.bind_eq_some_iff.mp h
  refine ⟨u, hu, ?_⟩
  extract_lets m₁ at h
  have hu₁ : m₁.units.get name = some
      { u with controlPid := none, groupPid := none, controlCommand := none } := by
    change (m.units.modify name _).get name = _
    rw [Table.get_modify, if_pos rfl, hu]
    rfl
  split at h
  · cases h
    exact .ignored
  · next hcond =>
    split at h
    · next hd => exact .stopped (.inl hd) (finalizeStop_ends h)
    · next hd =>
      by_cases hc : u.controlCommand = some .stop
      · have hs : m₁.hasStopJob name := by simpa [hc] using hcond
        unfold Manager.controlExited at h
        simp only [hc] at h
        exact .stopped (.inr hs) (finalizeStop_ends h)
      · exact controlExited_ends hu₁ rfl hd hc h

/-- The exit of a control process ends a stop, or it ends a step of the start of a unit that
is not being stopped, or the process turns out to be the main one. -/
theorem handleControlExit_cases {exit : ChildExit} (h : m.handleControlExit w name exit = some out) :
    ((m.activeOf name = some .deactivating ∨ m.hasStopJob name) ∧
      Ends w name .stop (m.forgetControl name) out) ∨
    (m.activeOf name ≠ some .deactivating ∧ ∃ m', (m' = m.forgetControl name ∨
      ∃ pid, m' = (m.forgetControl name).adoptPid name pid) ∧ Ends w name .start m' out) ∨
    (m.activeOf name ≠ some .deactivating ∧ out = (m.forgetControl name, [.mainExit name exit])) ∨
    out = (m.forgetControl name, []) := by
  obtain ⟨u, hu, h⟩ := handleControlExit_ends h
  have hactive : m.activeOf name = some u.active := by rw [Manager.activeOf, hu]; rfl
  have hs : ((m.forgetControl name).units.get name).isSome := by
    rw [Touches.forgetControl.isSome, hu]
    rfl
  rw [hactive, Option.some.injEq, ne_eq, Option.some.injEq]
  cases h with
  | stopped hd he => exact .inl ⟨hd, he⟩
  | advances ha _ he => exact .inr (.inl ⟨ha, _, .inl rfl, he⟩)
  | forks ha _ _ hm' ho =>
    refine .inr (.inl ⟨ha, ?_⟩)
    cases hr : Manager.readForkedPidfile w u with
    | none =>
      rw [hr, Option.elim_none] at hm'
      subst hm'
      exact ⟨_, .inl rfl, .completes (.setActive hs (by simp)) (.inl rfl) ho setActive_sameProcs⟩
    | some pid =>
      rw [hr, Option.elim_some] at hm'
      subst hm'
      refine ⟨_, .inr ⟨pid, rfl⟩, .completes (.setActive ?_ (by simp)) (.inl rfl) ho setActive_sameProcs⟩
      rwa [Local.adoptPid.isSome]
  | posted ha _ ho => exact .inr (.inl ⟨ha, _, .inl rfl, oneshotDone_ends ho⟩)
  | main ha => exact .inr (.inr (.inl ⟨ha, rfl⟩))
  | ignored => exact .inr (.inr (.inr rfl))

/-- What a start of a unit does: the unit is put in the state `s` or kept in its own, and from
there the procedure ends. If it ends with nothing more to do, the unit is in the state `s`. -/
structure Begins (w : World) (name : Name) (s : ActiveState) (m : Manager) (out : Out) : Prop where
  ends : ∃ m', Touches name m m' ∧
    (m'.activeOf name = m.activeOf name ∨ m'.activeOf name = some s) ∧ Ends w name .start m' out
  waits : out.2 = [] → (m.units.get name).isSome → out.1.activeOf name = some s

theorem completeJob_ne_nil {kinds : JobKind → Bool} (h : m.completeJob w name kinds = some out) :
    out.2 ≠ [] := by
  rcases completeJob_cases h with ⟨-, rfl⟩ | ⟨_, _, -, -, ⟨-, rfl⟩ | ⟨-, rfl⟩⟩
  · exact List.cons_ne_nil _ _
  · exact List.append_ne_nil_of_right_ne_nil _ (List.cons_ne_nil _ _)
  · exact List.cons_ne_nil _ _

/-- A procedure that has nothing more to do has left the state of its unit alone. -/
theorem Ends.active_of_nil (h : Ends w name kind m out) (hnil : out.2 = []) :
    out.1.activeOf name = m.activeOf name := by
  induction h with
  | waits hk => exact hk.active
  | fails => cases hnil
  | completes _ _ ho => exact absurd hnil (completeJob_ne_nil ho)
  | stops _ ho => exact absurd hnil (completeJob_ne_nil ho)
  | spawns idx main hk _ _ _ _ _ _ ih => rw [ih hnil, activeOf_recordSpawn, hk.active]

theorem Ends.local_of_nil (h : Ends w name kind m out) (hnil : out.2 = []) :
    Local name m out.1 := by
  induction h with
  | waits hk => exact hk.toLocal
  | fails => cases hnil
  | completes _ _ ho => exact absurd hnil (completeJob_ne_nil ho)
  | stops _ ho => exact absurd hnil (completeJob_ne_nil ho)
  | spawns idx main hk _ _ _ _ _ _ ih => exact (hk.toLocal.trans .recordSpawn).trans (ih hnil)

/-- No job is of the kind `restart`, so a procedure for that kind finishes none. -/
theorem Ends.same_of_restart (h : Ends w name .restart m out) :
    Local name m out.1 ∧ out.1.activeOf name = m.activeOf name := by
  generalize hk : JobKind.restart = k at h
  induction h with
  | waits hw => exact ⟨hw.toLocal, hw.active⟩
  | fails msg rest hw _ => exact ⟨hw.toLocal, hw.active⟩
  | completes => cases hk
  | stops => cases hk
  | spawns idx main hw _ _ _ _ _ _ ih =>
    obtain ⟨hl, ha⟩ := ih hk
    exact ⟨(hw.toLocal.trans .recordSpawn).trans hl, by rw [ha, activeOf_recordSpawn, hw.active]⟩

theorem Puts.begins (h : Puts name s m m') (h' : Ends w name .start m' out) : Begins w name s m out where
  ends := ⟨m', h.toTouches, .inr h.active, h'⟩
  waits hnil _ := (h'.active_of_nil hnil).trans h.active

/-- A procedure that has more to do in any case. -/
theorem Ends.begins (h : Ends w name .start m out) (hnil : out.2 ≠ []) : Begins w name s m out where
  ends := ⟨m, .refl, .inl rfl, h⟩
  waits h' _ := absurd h' hnil

theorem startActive_begins {sub : SubState} (h : m.startActive w name sub = some out)
    (hsub : sub ≠ .autoRestart) : Begins w name s m out := by
  unfold Manager.startActive at h
  split at h
  · next hc =>
    have hu : (m.units.get name).isSome := hc
    exact (Ends.completes (.setActive hu hsub) (.inl rfl) h setActive_sameProcs).begins
      (completeJob_ne_nil h)
  · next hc =>
    cases h
    refine ⟨⟨m, .refl, .inl rfl, .waits .refl⟩, fun _ hu ↦ absurd hu ?_⟩
    simpa [Table.contains] using hc

theorem bindListeners_keeps (service : Name) (i : Nat) (ls : List (SocketType × String))
    (m : Manager) : Keeps name m (m.bindListeners w name service i ls).1 := by
  induction ls generalizing i m with
  | nil => exact .refl
  | cons l ls ih =>
    unfold Manager.bindListeners
    split
    · refine Keeps.trans ?_ (ih _ _)
      exact .of_signals rfl rfl rfl rfl rfl rfl rfl rfl rfl .refl
    · exact .refl

theorem Begins.of_keeps (hk : Keeps name m m') (h : Begins w name s m' out) :
    Begins w name s m out where
  ends :=
    let ⟨m₀, hl, ha, he⟩ := h.ends
    ⟨m₀, hk.toTouches.trans hl, ha.imp_left (·.trans hk.active), he⟩
  waits hnil hu := h.waits hnil (by rwa [hk.isSome])

theorem fails_begins {msg : String} (h : Keeps name m m') :
    Begins w name s m (m', [.failUnit name msg]) :=
  (Ends.fails msg [] h (.inl rfl)).begins (List.cons_ne_nil _ _)

theorem beginService_puts (h : (m.units.get name).isSome) :
    Puts name .activating m (m.beginService w name) where
  toTouches := .modifyUnit (fun _ ↦ setActive_setup ..)
    (fun _ _ ↦ setActive_restartOk _ _ _ (by simp)) fun _ ↦ .of_none (setActive_procs ..)
  active := by
    obtain ⟨u, hu⟩ := Option.isSome_iff_exists.mp h
    rw [Manager.beginService, activeOf_modifyUnit, hu]
    simp

theorem startService_begins (h : m.startService w name = some out) :
    Begins w name .activating m out := by
  unfold Manager.startService at h
  split at h
  · next hu =>
    cases h
    exact ⟨⟨m, .refl, .inl rfl, .waits .refl⟩, fun _ hs ↦ by rw [hu] at hs; cases hs⟩
  · next u hu =>
    have hp : Puts name .activating m (m.beginService w name) := beginService_puts (by rw [hu]; rfl)
    extract_lets m₁ at h
    split at h
    · exact hp.begins (spawnControl_ends h rfl)
    · exact hp.begins (spawnControl_ends h rfl)

theorem startSocket_begins (h : m.startSocket w name = some out) : Begins w name s m out := by
  obtain ⟨u, hu, h⟩ := Option.bind_eq_some_iff.mp h
  split at h
  · exact startActive_begins h nofun
  · split at h
    · exact startActive_begins h nofun
    · next c _ _ =>
      have hk : Keeps name m (m.bindListeners w name u.activatedService 0 c.listeners).1 :=
        bindListeners_keeps ..
      extract_lets r at h
      split at h
      · exact (startActive_begins h nofun).of_keeps hk
      · cases h
        exact fails_begins (hk.trans .setResult)

theorem startMount_begins (h : m.startMount w name = some out) : Begins w name s m out := by
  obtain ⟨u, hu, h⟩ := Option.bind_eq_some_iff.mp h
  split at h
  · cases h
    exact fails_begins .refl
  · split at h
    · have hp : Puts name .active m (m.setActive w name .active .mounted .success) :=
        .setActive (by rw [hu]; rfl) nofun
      exact (Ends.completes hp (.inl rfl) h setActive_sameProcs).begins (completeJob_ne_nil h)
    · cases h
      exact fails_begins .setResult

theorem doStart_begins (h : m.doStart w name = some out) : Begins w name .activating m out := by
  unfold Manager.doStart at h
  split at h
  · exact startService_begins h
  · exact startActive_begins h nofun
  · exact startActive_begins h nofun
  · exact startActive_begins h nofun
  · exact startSocket_begins h
  · exact startActive_begins h nofun
  · exact startMount_begins h

theorem stopService_ends (h : m.stopService w name = some out) : Ends w name .stop m out := by
  obtain ⟨u, hu, h⟩ := Option.bind_eq_some_iff.mp h
  split at h
  · extract_lets m₁ at h
    cases h
    have hk : Keeps name m (m.killTree name (Manager.stopSignal u)) := .killTree
    have h₁ : Keeps name (m.killTree name (Manager.stopSignal u)) m₁ :=
      .modifyUnit fun _ ↦ ⟨⟨rfl, rfl⟩, rfl, rfl, nofun⟩
    have h₂ : Keeps name m m₁ := hk.trans h₁
    exact .waits (h₂.trans (.armStopTimeout (by rw [h₂.isSome, hu]; rfl)))
  · split at h
    · exact finalizeStop_ends h
    · exact (spawnControl_ends h rfl).of_modifyUnit fun _ ↦ ⟨⟨rfl, rfl⟩, rfl, rfl, nofun⟩

theorem stopSocket_ends (h : m.stopSocket w name = some out) : Ends w name .stop m out := by
  unfold Manager.stopSocket at h
  refine Keeps.ends ?_ (finalizeStop_ends h)
  exact .of_signals rfl rfl rfl rfl rfl rfl rfl rfl rfl .refl

theorem stopMount_ends (h : m.stopMount w name = some out) : Ends w name .stop m out := by
  obtain ⟨u, hu, h⟩ := Option.bind_eq_some_iff.mp h
  split at h
  · exact finalizeStop_ends h
  · split at h
    · exact finalizeStop_ends h
    · cases h
      exact .fails _ _ .setResult (.inl rfl)

theorem doStop_begins (h : m.doStop w name = some out) :
    ∃ m', Puts name .deactivating m m' ∧ Ends w name .stop m' out := by
  obtain ⟨u, hu, h⟩ := Option.bind_eq_some_iff.mp h
  extract_lets m₁ at h
  have hp : Puts name .deactivating m m₁ := .setActive (by rw [hu]; rfl) nofun
  refine ⟨m₁, hp, ?_⟩
  split at h
  · exact stopService_ends h
  · exact finalizeStop_ends h
  · exact finalizeStop_ends h
  · exact finalizeStop_ends h
  · exact finalizeStop_ends h
  · exact stopSocket_ends h
  · exact stopMount_ends h

theorem setResult_setActive_puts {r r' : UnitResult} {sub : SubState}
    (h : (m.units.get name).isSome) (hs : sub ≠ .autoRestart) :
    Puts name s m ((m.setResult name r).setActive w name s sub r') :=
  have hk : Keeps name m (m.setResult name r) := .setResult
  hk.puts (.setActive (by rwa [hk.isSome]) hs)

/-- How the exit of the main process of a unit that was not in transition ends. -/
inductive ActiveExit (w : World) (name : Name) (m : Manager) : Out → Prop
  | limit {m' : Manager} : Puts name .failed m m' → ActiveExit w name m (m', m'.pokeFailed w name)
  | restart {m' : Manager} (delay : Nat) : Keeps name m m' → (m'.units.get name).isSome →
      ActiveExit w name m (m'.scheduleRestart w name delay, [])
  | ended {m' : Manager} {s : ActiveState} {out : Out} : Puts name s m m' →
      (s = .active ∨ s = .inactive) → m'.completeStartJob w name = some out →
      ActiveExit w name m (out.andThen [.timerDepCheck])
  | failed {m' : Manager} : Puts name .failed m m' →
      ActiveExit w name m (m', m'.pokeFailed w name ++ [.fireOnFailure name])

theorem scheduleRestart_local {delay : Nat} : Local name m (m.scheduleRestart w name delay) :=
  have h : Local name m (m.modifyUnit name fun u ↦
      { u.setActive w.now .activating .autoRestart .success with nRestarts := u.nRestarts + 1 }) :=
    .modifyUnit (fun _ ↦ setActive_setup ..) fun u _ ↦
      setActive_restartOk w.now .success u fun _ ↦ rfl
  ⟨h.jobs, h.unitJob, h.nextJob, h.completedJobs, h.shuttingDown, h.others, h.setup, h.restartOk⟩

theorem activeOf_scheduleRestart {delay : Nat} (h : (m.units.get name).isSome) :
    (m.scheduleRestart w name delay).activeOf name = some .activating := by
  obtain ⟨u, hu⟩ := Option.isSome_iff_exists.mp h
  exact (activeOf_modifyUnit ..).trans (by rw [hu]; simp)

theorem handleActiveExit_ends {exit : ChildExit} (h : m.handleActiveExit w name exit = some out) :
    ActiveExit w name m out := by
  obtain ⟨u, hu, h⟩ := Option.bind_eq_some_iff.mp h
  have hs : (m.units.get name).isSome := by rw [hu]; rfl
  split at h
  · extract_lets limit m₁ m₂ at h
    have h₁ : Keeps name m m₁ := .checkStartLimit hu
    split at h
    · cases h
      exact .limit (h₁.puts (.setActive (by rwa [h₁.isSome]) nofun))
    · cases h
      exact .restart _ h₁ (by rwa [h₁.isSome])
  · split at h
    · extract_lets s at h
      obtain ⟨r, hr, h⟩ := Option.bind_eq_some_iff.mp h
      cases h
      exact .ended (.setActive hs (exitedState_sub u)) (exitedState_active u) hr
    · cases h
      exact .failed (setResult_setActive_puts hs nofun)

/-- What the exit of the main process does, by the state of the unit. -/
inductive MainExit (w : World) (name : Name) (exit : ChildExit) (u : Unit) (m : Manager) : Out → Prop
  | stopped {out : Out} : u.active = .deactivating → Ends w name .stop m out → MainExit w name exit u m out
  | vanished {m' : Manager} : u.active = .activating → u.exitOk exit → Puts name .inactive m m' →
      MainExit w name exit u m (m', [])
  | fails {m' : Manager} : u.active = .activating → Keeps name m m' →
      MainExit w name exit u m (m', [.failUnit name (describeExit exit)])
  | active {out : Out} : u.active ≠ .deactivating → u.active ≠ .activating →
      ActiveExit w name m out → MainExit w name exit u m out

theorem Local.activeExit (h : Keeps name m m') (h' : ActiveExit w name m' out) :
    ActiveExit w name m out := by
  cases h' with
  | limit hp => exact .limit (h.puts hp)
  | restart delay hk hu => exact .restart delay (h.trans hk) hu
  | ended hp hs ho => exact .ended (h.puts hp) hs ho
  | failed hp => exact .failed (h.puts hp)

theorem Touches.forgetMain : Touches name m (m.forgetMain name) :=
  .modifyUnit (fun _ ↦ ⟨rfl, rfl⟩) (fun _ hu ↦ hu) fun _ ↦ ⟨.inr rfl, .inl rfl, .inl rfl⟩

theorem activeOf_forgetMain : (m.forgetMain name).activeOf name = m.activeOf name := by
  rw [Manager.forgetMain, activeOf_modifyUnit, Manager.activeOf]

theorem mainExit_ends {exit : ChildExit} (h : m.mainExit w name exit = some out) :
    ∃ u, m.units.get name = some u ∧ MainExit w name exit u (m.forgetMain name) out := by
  obtain ⟨u, hu, h⟩ := Option.bind_eq_some_iff.mp h
  refine ⟨u, hu, ?_⟩
  extract_lets m₁ m₂ m₃ at h
  have hs : (m₁.units.get name).isSome := by rw [Touches.forgetMain.isSome, hu]; rfl
  split at h
  · next ha =>
    have hk : Keeps name m₁ (m₁.killTreeKill name) := .killTree
    exact .stopped ha (hk.ends (finalizeStop_ends h))
  · next ha =>
    have h₂ : Keeps name m₁ m₂ := .releaseBusNameWatch
    split at h
    · next hok =>
      cases h
      exact .vanished ha hok (h₂.puts (.setActive (by rwa [h₂.isSome]) nofun))
    · cases h
      exact .fails ha (h₂.trans .setResult)
  · next ha =>
    have h₃ : Keeps name m₁ m₃ := by
      cases hg : u.groupPid with
      | none => simp only [m₃, hg, Option.elim_none]; exact .refl
      | some pgid => simp only [m₃, hg, Option.elim_some]; exact .sweepOrphanedGroup
    exact .active (by simp [ha]) (by simp [ha]) (Local.activeExit h₃ (handleActiveExit_ends h))
  · next ha => exact .active (by simp [ha]) (by simp [ha]) (handleActiveExit_ends h)
  · next ha => exact .active (by simp [ha]) (by simp [ha]) (handleActiveExit_ends h)

/-- The unit is failed; its start job, if it has one, is finished, else the jobs that wait
for it are told. -/
theorem failUnit_ends {msg : String} (h : m.failUnit w name msg = some out) :
    ∃ m', Puts name .failed m m' ∧
      ((∃ jid job, m.unitJob.get name = some jid ∧ m.jobs.get jid = some job ∧ job.kind = .start ∧
          out = ((m'.modifyJob jid fun job ↦ { job with failedMsg := some msg }).finishJobFailed
            w jid).andThen [.fireOnFailure name]) ∨
        ((∀ jid job, m.unitJob.get name = some jid → m.jobs.get jid = some job → job.kind ≠ .start) ∧
          out = (m', m'.pokeFailed w name ++ [.fireOnFailure name]))) := by
  obtain ⟨u, hu, h⟩ := Option.bind_eq_some_iff.mp h
  extract_lets m₁ at h
  have hp : Puts name .failed m m₁ := .setActive (by rw [hu]; rfl) nofun
  refine ⟨m₁, hp, ?_⟩
  split at h
  · next hx =>
    cases h
    refine .inr ⟨fun jid _ hj ↦ ?_, rfl⟩
    have hx' : m.unitJob.get name = none := hx
    rw [hx'] at hj
    cases hj
  · next jid hx =>
    obtain ⟨job, hj, h⟩ := Option.bind_eq_some_iff.mp h
    have hx' : m.unitJob.get name = some jid := hx
    have hj' : m.jobs.get jid = some job := hj
    split at h
    · next hs =>
      cases h
      exact .inl ⟨jid, job, hx', hj', hs, rfl⟩
    · next hs =>
      cases h
      refine .inr ⟨fun jid' job' h₁ h₂ ↦ ?_, rfl⟩
      rw [hx'] at h₁
      cases h₁
      rw [hj'] at h₂
      cases h₂
      exact hs

end Rystemd
