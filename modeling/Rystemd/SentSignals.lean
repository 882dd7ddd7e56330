import Rystemd.Library.History
import Rystemd.StaleExits
import Rystemd.StopTimeout

namespace Rystemd

variable {w : World} {name : Name} {m m' m'' : Manager} {out : Out} {sent sent' : List Effect}

/-- Between `m` and `m'` these signals were sent, the latest first. Processes may have come too. -/
def Sends (m m' : Manager) (sent : List Effect) : Prop :=
  ∃ es, m'.kernel.effects = es ++ m.kernel.effects ∧ es.filter (fun e ↦ !e.isSpawn) = sent

namespace Sends

theorem of_kernel (h : m'.kernel = m.kernel) : Sends m m' [] := ⟨[], by rw [h]; rfl, rfl⟩

theorem trans (h : Sends m m' sent) (h' : Sends m' m'' sent') : Sends m m'' (sent' ++ sent) := by
  obtain ⟨es, he, hs⟩ := h
  obtain ⟨es', he', hs'⟩ := h'
  exact ⟨es' ++ es, by rw [he', he, List.append_assoc], by rw [List.filter_append, hs, hs']⟩

theorem andThen (h : Sends m m' []) (h' : Sends m' m'' sent) : Sends m m'' sent := by
  have ht := h.trans h'
  rwa [List.append_nil] at ht

theorem andKeep (h : Sends m m' sent) (hk : m''.kernel = m'.kernel) : Sends m m'' sent :=
  h.trans (.of_kernel hk)

theorem frame (h : Sends m' m'' sent) (hk : m'.kernel = m.kernel) : Sends m m'' sent :=
  Sends.andThen (.of_kernel hk) h

theorem recordSpawn {cmd : ControlCommand} {idx : Nat} {pid : Pid} {main : Bool} :
    Sends m (m.recordSpawn name cmd idx pid main) [] := ⟨[.spawn name cmd idx pid], rfl, rfl⟩

theorem killTree {sig : Signal} :
    Sends m (m.killTree name sig) (m.killEffect name sig).toList := by
  refine ⟨_, rfl, ?_⟩
  unfold Manager.killEffect
  split
  · rfl
  · cases (m.units.get name).bind Unit.groupPid <;> rfl

end Sends

section Kernel

theorem finalizeStop_kernel (h : m.finalizeStop w name = some out) :
    out.1.kernel = m.kernel := by
  obtain ⟨u, -, h⟩ := Option.bind_eq_some_iff.mp h
  exact (JobsOnly.completeJob h).kernel

theorem oneshotDone_kernel (h : m.oneshotDone w name = some out) : out.1.kernel = m.kernel := by
  obtain ⟨u, -, h⟩ := Option.bind_eq_some_iff.mp h
  exact (JobsOnly.completeJob h).kernel

theorem handleForkingStartDone_kernel (h : m.handleForkingStartDone w name = some out) :
    out.1.kernel = m.kernel := by
  obtain ⟨u, -, h⟩ := Option.bind_eq_some_iff.mp h
  rw [(JobsOnly.completeJob h).kernel]
  cases Manager.readForkedPidfile w u <;> rfl

theorem nowRunning_kernel (h : m.nowRunning w name = some out) : out.1.kernel = m.kernel := by
  unfold Manager.nowRunning at h
  split at h
  · exact (JobsOnly.completeJob h).kernel
  · cases h
    rfl

theorem startActive_kernel {sub : SubState} (h : m.startActive w name sub = some out) :
    out.1.kernel = m.kernel := by
  unfold Manager.startActive at h
  split at h
  · exact (JobsOnly.completeJob h).kernel
  · cases h
    rfl

theorem failUnit_kernel {msg : String} (h : m.failUnit w name msg = some out) :
    out.1.kernel = m.kernel := by
  obtain ⟨u, -, h⟩ := Option.bind_eq_some_iff.mp h
  extract_lets m₁ at h
  split at h
  · cases h
    rfl
  · obtain ⟨job, -, h⟩ := Option.bind_eq_some_iff.mp h
    split at h
    · cases h
      exact (JobsOnly.modifyJob.trans .finishJobFailed).kernel
    · cases h
      rfl

theorem handleActiveExit_kernel {exit : ChildExit} (h : m.handleActiveExit w name exit = some out) :
    out.1.kernel = m.kernel := by
  obtain ⟨u, -, h⟩ := Option.bind_eq_some_iff.mp h
  split at h
  · extract_lets limit m₁ m₂ at h
    split at h
    · cases h
      rfl
    · cases h
      rfl
  · split at h
    · extract_lets s at h
      obtain ⟨r, hr, h⟩ := Option.bind_eq_some_iff.mp h
      cases h
      exact (JobsOnly.completeJob hr).kernel
    · cases h
      rfl

theorem loadAll_kernel (h : m.loadAll w = some m') : m'.kernel = m.kernel := by
  unfold Manager.loadAll at h
  extract_lets devices at h
  rw [rearmTimers_kernel h]
  exact (udevRegisters_adds (w := w) devices _).kernel

theorem enqueueStartJob_kernel {mode : JobMode} (h : m.enqueueStartJobMode w name mode = some out) :
    out.1.kernel = m.kernel := by
  cases expandStartJob_cases h with
  | missing | asserted | opens | requisite => rfl
  | skipped => exact JobsOnly.finishJob.kernel

theorem starts_kernel {mode : JobMode} {reply : Manager.StartReply}
    (h : Starts w m name mode reply out) : out.1.kernel = m.kernel := by
  cases h with
  | unloadable => rfl
  | shutdown hl | active hl | pending hl | irreversible e hl =>
    exact (ensureUnitLoaded_adds hl).kernel
  | cancels msg hl => exact JobsOnly.cancelJob.kernel.trans (ensureUnitLoaded_adds hl).kernel
  | enqueues hl _ _ _ ho =>
    exact (enqueueStartJob_kernel ho).trans (ensureUnitLoaded_adds hl).kernel

theorem restart_kernel {reply : Manager.Reply} (h : m.restart w name = some (reply, out)) :
    out.1.kernel = m.kernel := by
  rcases restart_cases h with ⟨-, rfl⟩ | ⟨-, rfl, -⟩ | ⟨-, cs, -, rfl⟩ | ⟨-, reply', h, -⟩
  · rfl
  · rfl
  · exact (JobsOnly.dropStartJob.trans (.enqueueStop (w := w))).kernel
  · exact starts_kernel h

end Kernel

section Spawns

variable {cmd : ControlCommand} {idx : Nat} {sc : ServiceConfig}

theorem spawned_mute {pid : Pid} (h : m.spawned w name sc cmd idx pid = some out) :
    Sends m out.1 [] := by
  unfold Manager.spawned at h
  extract_lets main m₁ m₂ at h
  have hm : Sends m m₁ [] := .recordSpawn
  split at h
  · split at h
    · exact hm.andKeep (JobsOnly.completeJob h).kernel
    · split at h
      · cases h
        unfold Manager.beginBusNameWait
        split
        · exact hm
        · exact hm
      · cases h
        exact hm
  · cases h
    exact hm

theorem spawnCommand_mute {done : Manager → Option Out}
    (hdone : ∀ {m' out}, done m' = some out → Sends m' out.1 [])
    (h : m.spawnCommand w name cmd idx done = some out) : Sends m out.1 [] := by
  obtain ⟨u, -, h⟩ := Option.bind_eq_some_iff.mp h
  split at h
  · exact hdone h
  · split at h
    · exact hdone h
    · split at h
      · cases h
        exact .of_kernel rfl
      · extract_lets m₁ at h
        have hm : Sends m m₁ [] := .of_kernel rfl
        split at h
        · exact hm.andThen (spawned_mute h)
        · split at h
          · exact hm.andThen (hdone h)
          · cases h
            exact .of_kernel rfl

theorem runMainStart_mute (h : m.runMainStart w name idx = some out) : Sends m out.1 [] :=
  spawnCommand_mute (fun h ↦ .of_kernel (oneshotDone_kernel h)) h

theorem stageDone_mute (h : m.stageDone w name cmd = some out) : Sends m out.1 [] := by
  cases cmd with
  | startPre => exact runMainStart_mute h
  | start => exact .of_kernel (oneshotDone_kernel h)
  | stop => exact .of_kernel (finalizeStop_kernel h)
  | reload | startPost | kill =>
    cases h
    exact .of_kernel rfl

theorem spawnControl_mute (h : m.spawnControl w name cmd idx = some out) : Sends m out.1 [] :=
  spawnCommand_mute stageDone_mute h

theorem runStartPostOrFinish_mute (h : m.runStartPostOrFinish w name = some out) :
    Sends m out.1 [] := by
  obtain ⟨u, -, h⟩ := Option.bind_eq_some_iff.mp h
  split at h
  · exact spawnControl_mute h
  · exact .of_kernel (oneshotDone_kernel h)

theorem controlExited_mute {u : Unit} {exit : ChildExit}
    (h : m.controlExited w name u exit = some out) : Sends m out.1 [] := by
  unfold Manager.controlExited at h
  extract_lets ignoreFailure ok at h
  split at h
  · split at h
    · exact runMainStart_mute h
    · cases h
      exact .of_kernel rfl
  · split at h
    · split at h
      · split at h
        · exact (runMainStart_mute h).frame rfl
        · exact (runStartPostOrFinish_mute h).frame rfl
      · cases h
        exact .of_kernel rfl
    · exact .of_kernel (handleForkingStartDone_kernel h)
    · cases h
      exact .of_kernel rfl
  · exact .of_kernel (oneshotDone_kernel h)
  · exact .of_kernel (finalizeStop_kernel h)
  · cases h
    exact .of_kernel rfl
  · cases h
    exact .of_kernel rfl
  · cases h
    exact .of_kernel rfl

theorem handleControlExit_mute {exit : ChildExit} (h : m.handleControlExit w name exit = some out) :
    Sends m out.1 [] := by
  obtain ⟨u, -, h⟩ := Option.bind_eq_some_iff.mp h
  extract_lets m₁ at h
  have hm : Sends m m₁ [] := .of_kernel rfl
  split at h
  · cases h
    exact hm
  · split at h
    · exact hm.andKeep (finalizeStop_kernel h)
    · exact hm.andThen (controlExited_mute h)

theorem processExit_mute {pid : Pid} {exit : ChildExit} (h : m.processExit w pid exit = some out) :
    Sends m out.1 [] := by
  have hm : Sends m (m.forgetPid pid) [] := ⟨[], rfl, rfl⟩
  cases processExit_cases h with
  | ignored | main => exact hm
  | control _ _ _ _ h => exact hm.andThen (handleControlExit_mute h)

theorem startService_mute (h : m.startService w name = some out) : Sends m out.1 [] := by
  unfold Manager.startService at h
  split at h
  · cases h
    exact .of_kernel rfl
  · extract_lets m₁ at h
    have hm : Sends m m₁ [] := .of_kernel rfl
    split at h
    · exact hm.andThen (spawnControl_mute h)
    · exact hm.andThen (spawnControl_mute h)

theorem bindListeners_kernel {service : Name} {i : Nat} {l : List (SocketType × String)} :
    (Manager.bindListeners w name service i l m).1.kernel = m.kernel := by
  induction l generalizing i m with
  | nil => rfl
  | cons a l ih =>
    unfold Manager.bindListeners
    split
    · exact ih
    · rfl

theorem startSocket_kernel (h : m.startSocket w name = some out) : out.1.kernel = m.kernel := by
  obtain ⟨u, -, h⟩ := Option.bind_eq_some_iff.mp h
  split at h
  · exact startActive_kernel h
  · split at h
    · exact startActive_kernel h
    · extract_lets r at h
      split at h
      · exact (startActive_kernel h).trans bindListeners_kernel
      · cases h
        exact bindListeners_kernel

theorem startMount_kernel (h : m.startMount w name = some out) : out.1.kernel = m.kernel := by
  obtain ⟨u, -, h⟩ := Option.bind_eq_some_iff.mp h
  split at h
  · cases h
    rfl
  · split at h
    · exact (JobsOnly.completeJob h).kernel
    · cases h
      rfl

theorem doStart_mute (h : m.doStart w name = some out) : Sends m out.1 [] := by
  unfold Manager.doStart at h
  split at h
  · exact startService_mute h
  · exact .of_kernel (startActive_kernel h)
  · exact .of_kernel (startActive_kernel h)
  · exact .of_kernel (startActive_kernel h)
  · exact .of_kernel (startSocket_kernel h)
  · exact .of_kernel (startActive_kernel h)
  · exact .of_kernel (startMount_kernel h)

theorem maybeStartJob_mute {id : JobId} (h : m.maybeStartJob w id = some out) :
    Sends m out.1 [] := by
  obtain ⟨job, -, h⟩ := Option.bind_eq_some_iff.mp h
  split at h
  · cases h
    exact .of_kernel JobsOnly.finishJobFailed.kernel
  · split at h
    · cases h
      exact .of_kernel rfl
    · obtain ⟨u, -, h⟩ := Option.bind_eq_some_iff.mp h
      extract_lets m₁ limit m₂ m₃ at h
      have hm : Sends m m₂ [] := .of_kernel rfl
      split at h
      · cases h
        exact hm.andKeep (JobsOnly.modifyJob.trans .finishJobFailed).kernel
      · exact hm.andThen (doStart_mute h)

theorem reload_mute (h : m.reload w name = some out) : Sends m out.1 [] := by
  unfold Manager.reload at h
  split at h
  · cases h
    exact .of_kernel rfl
  · split at h
    · exact spawnControl_mute h
    · cases h
      exact .of_kernel rfl

end Spawns

section Signals

open Manager (hasProcesses stopSignal sweepOrphanedGroup)

theorem killEffect_modifyUnit {f : Unit → Unit} {sig : Signal}
    (hf : ∀ u, (f u).cgroup = u.cgroup ∧ (f u).groupPid = u.groupPid) :
    (m.modifyUnit name f).killEffect name sig = m.killEffect name sig := by
  unfold Manager.killEffect
  rw [Manager.modifyUnit, Table.get_modify, if_pos rfl]
  cases m.units.get name with
  | none => rfl
  | some u => rw [Option.map_some, Option.bind_some, Option.bind_some, (hf u).1, (hf u).2]; rfl

theorem stopService_sends {u : Unit} (h : m.stopService w name = some out)
    (hu : m.units.get name = some u) : Sends m out.1
      (if hasProcesses w u then (m.killEffect name (stopSignal u)).toList else []) := by
  unfold Manager.stopService at h
  rw [hu] at h
  change (if _ then _ else _) = _ at h
  split at h
  · next hp =>
    cases h
    rw [if_pos hp]
    exact Sends.killTree.andKeep rfl
  · next hp =>
    rw [if_neg hp]
    split at h
    · exact .of_kernel (finalizeStop_kernel h)
    · exact (spawnControl_mute h).frame rfl

theorem stopSocket_kernel (h : m.stopSocket w name = some out) : out.1.kernel = m.kernel := by
  unfold Manager.stopSocket at h
  exact (finalizeStop_kernel h).trans rfl

theorem stopMount_kernel (h : m.stopMount w name = some out) : out.1.kernel = m.kernel := by
  obtain ⟨u, -, h⟩ := Option.bind_eq_some_iff.mp h
  split at h
  · exact finalizeStop_kernel h
  · split at h
    · exact finalizeStop_kernel h
    · cases h
      rfl

theorem setActive_tree {now : Nat} {s : ActiveState} {sub : SubState} {r : UnitResult} {u : Unit} :
    (u.setActive now s sub r).cgroup = u.cgroup ∧
      (u.setActive now s sub r).groupPid = u.groupPid := by
  unfold Unit.setActive
  cases s <;> dsimp only <;> (try split) <;> exact ⟨rfl, rfl⟩

theorem setActive_stopSignal {now : Nat} {s : ActiveState} {sub : SubState} {r : UnitResult}
    {u : Unit} : stopSignal (u.setActive now s sub r) = stopSignal u := by
  unfold stopSignal Unit.serviceCfg
  rw [(setActive_setup now s sub r u).2]

/-- The stop of a unit signals its processes if it is a service that has some. -/
theorem doStop_sends {u : Unit} (h : m.doStop w name = some out)
    (hu : m.units.get name = some u) : Sends m out.1
      (if u.kind = .service ∧ hasProcesses w u then (m.killEffect name (stopSignal u)).toList
        else []) := by
  obtain ⟨v, hv, h⟩ := Option.bind_eq_some_iff.mp h
  obtain rfl : u = v := Option.some.inj (hu.symm.trans hv)
  extract_lets m₁ at h
  have hm₁ : m₁.units.get name = some (u.setActive w.now .deactivating .stop .success) := by
    change (Table.modify _ _ _).get name = _
    rw [Table.get_modify, if_pos rfl, hu, Option.map_some]
  have quiet (hk : out.1.kernel = m₁.kernel) (hkind : u.kind ≠ .service) : Sends m out.1
      (if u.kind = .service ∧ hasProcesses w u then (m.killEffect name (stopSignal u)).toList
        else []) := by
    rw [if_neg fun hs ↦ hkind hs.1]
    exact .of_kernel hk
  split at h
  · next hkind =>
    have hs : Sends m out.1 _ := (stopService_sends h hm₁).frame rfl
    have hkill : m₁.killEffect name (stopSignal u) = m.killEffect name (stopSignal u) :=
      killEffect_modifyUnit fun _ ↦ setActive_tree
    rw [setActive_processes, setActive_stopSignal, hkill] at hs
    simpa only [hkind, true_and] using hs
  · next hkind => exact quiet (finalizeStop_kernel h) (by rw [hkind]; simp)
  · next hkind => exact quiet (finalizeStop_kernel h) (by rw [hkind]; simp)
  · next hkind => exact quiet (finalizeStop_kernel h) (by rw [hkind]; simp)
  · next hkind => exact quiet (finalizeStop_kernel h) (by rw [hkind]; simp)
  · next hkind => exact quiet (stopSocket_kernel h) (by rw [hkind]; simp)
  · next hkind => exact quiet (stopMount_kernel h) (by rw [hkind]; simp)

/-- What a service whose stop job begins is sent. -/
def stopJobSignals (w : World) (m : Manager) (job : Job) : List Effect :=
  match m.units.get job.unit with
  | none => []
  | some u =>
    if u.operational ∧ job.started = false ∧ u.kind = .service ∧ hasProcesses w u then
      (m.killEffect job.unit (stopSignal u)).toList
    else []

/-- What is sent to what a main process leaves behind. -/
def mainExitSignals (w : World) (name : Name) (u : Unit) : List Effect :=
  match u.active with
  | .deactivating => (u.cgroup.map fun dir ↦ .killCgroup name dir sigkill).toList
  | .active =>
    if u.serviceCfg.any fun sc ↦ sc.serviceType ≠ .forking && u.groupPid.any w.groupAlive &&
        sc.killMode = .controlGroup then
      (u.groupPid.map fun pgid ↦ .killGroup name pgid sigkill).toList
    else []
  | .inactive | .activating | .failed => []

def timeoutSignals (m : Manager) (name : Name) (u : Unit) : TimerKind → List Effect
  | .startTimeout => if u.active = .activating then (m.killEffect name sigkill).toList else []
  | .stopTimeout => if u.active = .deactivating then (m.killEffect name sigkill).toList else []
  | .restartDelay | .calendarElapse _ | .monotonicElapse => []

/-- The signals that a call sends. -/
def signalsOf (w : World) (m : Manager) : Call → List Effect
  | .kill name sig =>
    if (m.units.get name).any (hasProcesses w) then (m.killEffect name sig).toList else []
  | .maybeStopJob id => (m.jobs.get id).elim [] (stopJobSignals w m)
  | .mainExit name _ => (m.units.get name).elim [] (mainExitSignals w name)
  | .fireTimer name kind =>
    ((m.units.get name).filter fun u ↦ u.kind ≠ .timer).elim [] fun u ↦
      timeoutSignals m name u kind
  | _ => []

theorem maybeStopJob_sends {id : JobId} {job : Job} (h : m.maybeStopJob w id = some out)
    (hj : m.jobs.get id = some job) : Sends m out.1 (stopJobSignals w m job) := by
  obtain ⟨job', hj', h⟩ := maybeStopJob_cases h
  obtain rfl : job = job' := Option.some.inj (hj.symm.trans hj')
  unfold stopJobSignals
  have hop : m.unitOperational job.unit = (m.units.get job.unit).any Unit.operational := rfl
  cases hu : m.units.get job.unit with
  | none =>
    rw [hu] at hop
    rcases h with ⟨-, rfl⟩ | ⟨ho, -⟩ | ⟨ho, -⟩
    · exact .of_kernel JobsOnly.finishJob.kernel
    · cases hop.symm.trans ho
    · cases hop.symm.trans ho
  | some u =>
    rw [hu, Option.any_some] at hop
    dsimp only
    rcases h with ⟨ho, rfl⟩ | ⟨-, hs, rfl⟩ | ⟨ho, hs, h⟩
    · rw [if_neg (by simp [← hop, ho])]
      exact .of_kernel JobsOnly.finishJob.kernel
    · rw [if_neg (by simp [hs])]
      exact .of_kernel rfl
    · have hsends := (doStop_sends h hu).frame (m := m) rfl
      rw [← hop]
      simp only [ho, hs, true_and]
      exact hsends

theorem sweep_sends {u : Unit} :
    Sends m (u.groupPid.elim m fun pgid ↦ m.sweepOrphanedGroup w name u pgid)
      (if u.serviceCfg.any fun sc ↦ sc.serviceType ≠ .forking && u.groupPid.any w.groupAlive &&
          sc.killMode = .controlGroup then
        (u.groupPid.map fun pgid ↦ .killGroup name pgid sigkill).toList
      else []) := by
  cases u.groupPid with
  | none =>
    split
    · exact .of_kernel rfl
    · exact .of_kernel rfl
  | some pgid =>
    rw [Option.elim_some, Option.map_some, Option.any_some]
    unfold sweepOrphanedGroup
    split
    · exact ⟨_, rfl, rfl⟩
    · exact ⟨_, rfl, rfl⟩

theorem mainExit_sends {exit : ChildExit} {u : Unit} (h : m.mainExit w name exit = some out)
    (hu : m.units.get name = some u) : Sends m out.1 (mainExitSignals w name u) := by
  obtain ⟨v, hv, h⟩ := Option.bind_eq_some_iff.mp h
  obtain rfl : u = v := Option.some.inj (hu.symm.trans hv)
  unfold mainExitSignals
  extract_lets m₁ m₂ m₃ at h
  split at h
  · next ha =>
    rw [ha]
    have hkill :
        m₁.killEffect name sigkill = u.cgroup.map fun dir ↦ .killCgroup name dir sigkill := by
      have hm₁ : m₁.units.get name = some { u with mainPid := none, groupPid := none } := by
        change (Table.modify _ _ _).get name = _
        rw [Table.get_modify, if_pos rfl, hu, Option.map_some]
      unfold Manager.killEffect
      rw [hm₁]
      cases u.cgroup with
      | none => simp
      | some dir => simp
    rw [← hkill]
    exact (Sends.killTree.andKeep (finalizeStop_kernel h)).frame rfl
  · next ha =>
    rw [ha]
    split at h
    · cases h
      exact .of_kernel rfl
    · cases h
      exact .of_kernel rfl
  · next ha =>
    rw [ha]
    have hsweep : Sends m₁ m₃ _ := sweep_sends
    exact (hsweep.andKeep (handleActiveExit_kernel h)).frame rfl
  · next ha =>
    rw [ha]
    exact .of_kernel ((handleActiveExit_kernel h).trans rfl)
  · next ha =>
    rw [ha]
    exact .of_kernel ((handleActiveExit_kernel h).trans rfl)

theorem fireTimer_sends {kind : TimerKind} (h : m.fireTimer w name kind = some out) :
    Sends m out.1 (signalsOf w m (.fireTimer name kind)) := by
  unfold Manager.fireTimer at h
  rw [signalsOf]
  cases hu : m.units.get name with
  | none =>
    rw [hu] at h
    change m.fireServiceTimer w name kind = _ at h
    unfold Manager.fireServiceTimer at h
    rw [hu] at h
    cases h
    exact .of_kernel rfl
  | some u =>
    rw [hu] at h
    by_cases hk : u.kind = .timer
    · simp only [Option.filter, hk, decide_true, if_true] at h
      cases h
      simp only [Option.filter, hk, ne_eq, not_true_eq_false, decide_false]
      exact .of_kernel rfl
    · simp only [Option.filter, hk, decide_false] at h
      change m.fireServiceTimer w name kind = _ at h
      simp only [Option.filter, hk, ne_eq, not_false_eq_true, decide_true, if_true,
        Option.elim_some]
      unfold Manager.fireServiceTimer at h
      rw [hu] at h
      dsimp only at h
      unfold timeoutSignals
      split at h
      · split at h
        · obtain ⟨r, hr, rfl⟩ := Option.map_eq_some_iff.mp h
          have hs : Sends m r.1 [] := doStart_mute hr
          exact hs
        · cases h
          exact .of_kernel rfl
      · split at h
        · next ha =>
          cases h
          have hkill : (m.setResult name .timeout).killEffect name sigkill =
              m.killEffect name sigkill := killEffect_modifyUnit fun _ ↦ ⟨rfl, rfl⟩
          rw [if_pos ha, ← hkill]
          exact Sends.killTree.frame rfl
        · next ha =>
          cases h
          rw [if_neg ha]
          exact .of_kernel rfl
      · split at h
        · next ha =>
          rw [if_pos ha]
          exact Sends.killTree.andKeep (finalizeStop_kernel h)
        · next ha =>
          cases h
          rw [if_neg ha]
          exact .of_kernel rfl
      · cases h
        exact .of_kernel rfl
      · cases h
        exact .of_kernel rfl

theorem kill_sends {sig : Signal} (h : m.kill w name sig = some out) :
    Sends m out.1 (signalsOf w m (.kill name sig)) := by
  obtain ⟨u, hu, h⟩ := Option.bind_eq_some_iff.mp h
  cases h
  rw [signalsOf, hu, Option.any_some]
  split
  · exact .killTree
  · exact .of_kernel rfl

/-- Every call sends the signals that it is said to send, and no others. -/
theorem exec_sends {c : Call} (h : exec w c m = some out) : Sends m out.1 (signalsOf w m c) := by
  cases c with
  | kill name sig => exact kill_sends h
  | maybeStopJob id =>
    obtain ⟨job, hj, -⟩ := Option.bind_eq_some_iff.mp h
    rw [signalsOf, hj, Option.elim_some]
    exact maybeStopJob_sends h hj
  | mainExit name exit =>
    obtain ⟨u, hu, -⟩ := Option.bind_eq_some_iff.mp h
    rw [signalsOf, hu, Option.elim_some]
    exact mainExit_sends h hu
  | fireTimer name kind => exact fireTimer_sends h
  | maybeStartJob id => exact maybeStartJob_mute h
  | processExit pid exit => exact processExit_mute h
  | reload name => exact reload_mute h
  | start name mode =>
    obtain ⟨r, hr, rfl⟩ := Option.map_eq_some_iff.mp h
    exact .of_kernel (starts_kernel (startWithMode_cases hr))
  | startIgnoreDependencies name =>
    cases h
    exact .of_kernel JobsOnly.startIgnoreDependencies.kernel
  | stop name mode =>
    cases h
    exact .of_kernel JobsOnly.stopWithMode.kernel
  | revive name =>
    obtain ⟨u, -, h⟩ := Option.bind_eq_some_iff.mp h
    cases h
    exact .of_kernel rfl
  | restart name =>
    obtain ⟨r, hr, rfl⟩ := Option.map_eq_some_iff.mp h
    exact .of_kernel (restart_kernel hr)
  | restartActivated name | tryRestart name =>
    change (if _ then _ else _) = _ at h
    split at h
    · obtain ⟨r, hr, rfl⟩ := Option.map_eq_some_iff.mp h
      exact .of_kernel (restart_kernel hr)
    · cases h
      exact .of_kernel rfl
  | restartOrStart name =>
    change (if _ then _ else _) = _ at h
    split at h
    · obtain ⟨r, hr, rfl⟩ := Option.map_eq_some_iff.mp h
      exact .of_kernel (restart_kernel hr)
    · obtain ⟨r, hr, rfl⟩ := Option.map_eq_some_iff.mp h
      exact .of_kernel (starts_kernel (startWithMode_cases hr))
  | resetFailed name =>
    cases h
    refine .of_kernel ?_
    unfold Manager.resetFailed
    split <;> rfl
  | shutdown =>
    cases h
    refine .of_kernel ?_
    unfold Manager.shutdown
    split <;> rfl
  | loadAll =>
    obtain ⟨m', hm', rfl⟩ := Option.map_eq_some_iff.mp h
    exact .of_kernel (loadAll_kernel hm')
  | loadUnit name =>
    cases h
    exact .of_kernel busLoadUnit_adds.kernel
  | udevRegister device =>
    cases h
    exact .of_kernel udevRegister_adds.kernel
  | notify ready pid =>
    change m.handleNotify w ready pid = some out at h
    unfold Manager.handleNotify at h
    split at h
    · cases h
      exact .of_kernel rfl
    · split at h
      · exact .of_kernel (nowRunning_kernel h)
      · cases h
        exact .of_kernel rfl
  | nameAcquired busName =>
    change m.nameAcquired w busName = some out at h
    unfold Manager.nameAcquired at h
    split at h
    · cases h
      exact .of_kernel rfl
    · exact .of_kernel ((nowRunning_kernel h).trans rfl)
  | enqueueStartJob name => exact .of_kernel (enqueueStartJob_kernel h)
  | stopConflict name =>
    rcases stopConflict_cases h with rfl | ⟨-, rfl, -⟩
    · exact .of_kernel rfl
    · exact .of_kernel (JobsOnly.enqueueStop (w := w)).kernel
  | stopDependent name =>
    cases h
    rcases stopDependent_cases name with he | ⟨-, -, he⟩
    · rw [he]
      exact .of_kernel rfl
    · rw [he]
      exact .of_kernel (JobsOnly.enqueueStop (w := w)).kernel
  | expandOpen id name needs waiting ds =>
    exact .of_kernel (JobsOnly.opens (expandOpen_cases h)).kernel
  | processPass ids changed =>
    cases h
    refine .of_kernel ?_
    unfold Manager.processPass
    split
    · rfl
    · exact JobsOnly.tryAdvanceJob.kernel
  | jobCompleted id unit ok =>
    cases h
    exact .of_kernel JobsOnly.jobCompleted.kernel
  | pokeFailedJob id name =>
    cases h
    exact .of_kernel JobsOnly.pokeFailedJob.kernel
  | failUnit name msg => exact .of_kernel (failUnit_kernel h)
  | armStartTimeout name =>
    obtain ⟨u, -, rfl⟩ := Option.map_eq_some_iff.mp h
    exact .of_kernel rfl
  | timerDepCheck =>
    obtain ⟨m', hm', rfl⟩ := Option.map_eq_some_iff.mp h
    exact .of_kernel (rearmTimers_kernel hm')
  | rearmTimer name =>
    obtain ⟨m', hm', rfl⟩ := Option.map_eq_some_iff.mp h
    exact .of_kernel (rearmTimer_kernel hm')
  | fireOnFailure name =>
    obtain ⟨u, -, h⟩ := Option.bind_eq_some_iff.mp h
    cases h
    exact .of_kernel rfl
  | enqueueStop name mode | udevRemove device | tick | pollPaths | isolate name | reap
  | socketReady fd | processJobs =>
    cases h
    exact .of_kernel rfl

end Signals

open Worklist

/-- In every run, the signals that were sent are those of its calls, the latest first. -/
theorem signals_accounted {C : World → Call → Manager → Prop} {a b : Config Manager Call}
    {l : List (Made Manager Call World)} (h : History engine C a l b) :
    Sends a.state b.state (l.reverse.flatMap fun d ↦ signalsOf d.answers d.before d.call) := by
  induction h with
  | start => exact .of_kernel rfl
  | arrive _ _ ih => exact ih
  | call _ hd ih =>
    rw [List.reverse_append, List.reverse_singleton, List.singleton_append, List.flatMap_cons]
    exact ih.trans (exec_sends hd.exec)

theorem signals_accounted_stopping : ∃ m a l, Booted m ∧
    History engine (keepsStopTimeouts · · ·) ⟨m, []⟩ l a ∧ stopping a ∧
      Sends m a.state (l.reverse.flatMap fun d ↦ signalsOf d.answers d.before d.call) := by
  obtain ⟨m, hb, hr⟩ := stoppingService.reached
  obtain ⟨l, hl⟩ := hr.history
  exact ⟨m, _, l, hb, hl, stoppingService.shows, signals_accounted hl⟩

end Rystemd
