import Rystemd.Subjects
import Rystemd.JobIndex

namespace Rystemd

/-- Every id in the index is the one of a job of that unit. -/
abbrev Pointed (m : Manager) : Prop := Index.Points Job.unit m.jobs m.unitJob

variable {w : World} {c : Call} {m m' : Manager} {name : Name} {out : Out} {id : JobId} {job : Job}

theorem isSome_modifyUnit {n : Name} {f : Unit → Unit} :
    ((m.modifyUnit n f).units.get name).isSome = (m.units.get name).isSome := by
  rw [Manager.modifyUnit, Table.get_modify]
  split
  · rw [Option.isSome_map]
  · rfl

theorem isSome_bind {α β : Type} {o : Option α} {f : α → Option β} (h : o.isSome)
    (hf : ∀ a, o = some a → (f a).isSome) : (o.bind f).isSome := by
  obtain ⟨a, rfl⟩ := Option.isSome_iff_exists.mp h
  exact hf a rfl

section Processes

theorem completeJob_isSome (hp : Pointed m) (kinds : JobKind → Bool) :
    (m.completeJob w name kinds).isSome := by
  unfold Manager.completeJob
  split
  · rfl
  · next jid hx =>
    obtain ⟨job, hj, -⟩ := hp name jid hx
    exact isSome_bind (by rw [hj]; rfl) fun _ _ ↦ rfl

theorem finalizeStop_isSome (hu : (m.units.get name).isSome) (hp : Pointed m) :
    (m.finalizeStop w name).isSome :=
  isSome_bind hu fun _ _ ↦
    completeJob_isSome (m := (m.releaseBusNameWatch name).modifyUnit name (Unit.finalized w.now)) hp _

theorem setActive_complete_isSome {s : ActiveState} {sub : SubState} {r : UnitResult} (hp : Pointed m) :
    ((m.setActive w name s sub r).completeStartJob w name).isSome :=
  completeJob_isSome (m := m.setActive w name s sub r) hp _

theorem oneshotDone_isSome (hu : (m.units.get name).isSome) (hp : Pointed m) :
    (m.oneshotDone w name).isSome :=
  isSome_bind hu fun _ _ ↦ setActive_complete_isSome hp

theorem spawned_isSome {sc : ServiceConfig} {cmd : ControlCommand} {idx : Nat} {pid : Pid}
    (hp : Pointed m) : (m.spawned w name sc cmd idx pid).isSome := by
  unfold Manager.spawned
  extract_lets main m₁ m₂
  have hp₁ : Pointed m₁ := hp
  split
  · split
    · exact setActive_complete_isSome hp₁
    · split <;> rfl
  · rfl

theorem spawnCommand_isSome {cmd : ControlCommand} {idx : Nat} {done : Manager → Option Out}
    (hu : (m.units.get name).isSome) (hp : Pointed m)
    (hdone : ∀ m', (m'.units.get name).isSome → Pointed m' → (done m').isSome) :
    (m.spawnCommand w name cmd idx done).isSome := by
  refine isSome_bind hu fun u _ ↦ ?_
  have hc : Pointed (m.ensureCgroup w name) := hp
  split
  · exact hdone m hu hp
  · split
    · exact hdone m hu hp
    · split
      · rfl
      · dsimp only
        split
        · exact spawned_isSome hc
        · split
          · exact hdone _ (by rwa [Manager.ensureCgroup, isSome_modifyUnit]) hc
          · rfl

theorem runMainStart_isSome {idx : Nat} (hu : (m.units.get name).isSome) (hp : Pointed m) :
    (m.runMainStart w name idx).isSome :=
  spawnCommand_isSome hu hp fun _ ↦ oneshotDone_isSome

theorem stageDone_isSome {cmd : ControlCommand} (hu : (m.units.get name).isSome) (hp : Pointed m) :
    (m.stageDone w name cmd).isSome := by
  cases cmd with
  | startPre => exact runMainStart_isSome hu hp
  | start => exact oneshotDone_isSome hu hp
  | stop => exact finalizeStop_isSome hu hp
  | reload | startPost | kill => rfl

theorem spawnControl_isSome {cmd : ControlCommand} {idx : Nat} (hu : (m.units.get name).isSome)
    (hp : Pointed m) : (m.spawnControl w name cmd idx).isSome :=
  spawnCommand_isSome hu hp fun _ ↦ stageDone_isSome

theorem runStartPostOrFinish_isSome (hu : (m.units.get name).isSome) (hp : Pointed m) :
    (m.runStartPostOrFinish w name).isSome := by
  refine isSome_bind hu fun u _ ↦ ?_
  split
  · exact spawnControl_isSome hu hp
  · exact oneshotDone_isSome hu hp

theorem handleForkingStartDone_isSome (hu : (m.units.get name).isSome) (hp : Pointed m) :
    (m.handleForkingStartDone w name).isSome := by
  refine isSome_bind hu fun u _ ↦ setActive_complete_isSome ?_
  cases Manager.readForkedPidfile w u with
  | none => exact hp
  | some pid => exact hp

theorem controlExited_isSome {u : Unit} {exit : ChildExit} (hu : (m.units.get name).isSome)
    (hp : Pointed m) : (m.controlExited w name u exit).isSome := by
  unfold Manager.controlExited
  extract_lets ignoreFailure ok
  split
  · split
    · exact runMainStart_isSome hu hp
    · rfl
  · split
    · split
      · split
        · exact runMainStart_isSome (by rwa [isSome_modifyUnit]) hp
        · exact runStartPostOrFinish_isSome (by rwa [isSome_modifyUnit]) hp
      · rfl
    · exact handleForkingStartDone_isSome hu hp
    · rfl
  · exact oneshotDone_isSome hu hp
  · exact finalizeStop_isSome hu hp
  · rfl
  · rfl
  · rfl

theorem handleControlExit_isSome {exit : ChildExit} (hu : (m.units.get name).isSome)
    (hp : Pointed m) : (m.handleControlExit w name exit).isSome := by
  refine isSome_bind hu fun u _ ↦ ?_
  have hp₁ : Pointed (m.forgetControl name) := hp
  have hu₁ : ((m.forgetControl name).units.get name).isSome := by
    rwa [Manager.forgetControl, isSome_modifyUnit]
  dsimp only
  split
  · rfl
  · split
    · exact finalizeStop_isSome hu₁ hp₁
    · exact controlExited_isSome hu₁ hp₁

theorem handleActiveExit_isSome {exit : ChildExit} (hu : (m.units.get name).isSome)
    (hp : Pointed m) : (m.handleActiveExit w name exit).isSome := by
  refine isSome_bind hu fun u _ ↦ ?_
  split
  · dsimp only
    split <;> rfl
  · split
    · exact isSome_bind (setActive_complete_isSome hp) fun _ _ ↦ rfl
    · rfl

theorem mainExit_isSome {exit : ChildExit} (hu : (m.units.get name).isSome) (hp : Pointed m) :
    (m.mainExit w name exit).isSome := by
  refine isSome_bind hu fun u _ ↦ ?_
  have hp₁ : Pointed (m.forgetMain name) := hp
  have hu₁ : ((m.forgetMain name).units.get name).isSome := by
    rwa [Manager.forgetMain, isSome_modifyUnit]
  dsimp only
  split
  · exact finalizeStop_isSome (m := (m.forgetMain name).killTreeKill name) hu₁ hp₁
  · split <;> rfl
  · cases u.groupPid with
    | none => exact handleActiveExit_isSome hu₁ hp₁
    | some pgid =>
      exact handleActiveExit_isSome (m := (m.forgetMain name).sweepOrphanedGroup w name u pgid) hu₁ hp₁
  · exact handleActiveExit_isSome hu₁ hp₁
  · exact handleActiveExit_isSome hu₁ hp₁

theorem processExit_isSome {pid : Pid} {exit : ChildExit} (hp : Pointed m) :
    (m.processExit w pid exit).isSome := by
  unfold Manager.processExit
  have hp' : Pointed (m.forgetPid pid) := hp
  dsimp only
  split
  · rfl
  · split
    · rfl
    · split
      · next hc =>
        obtain ⟨u, hu, -⟩ := Option.any_eq_true .. |>.mp hc
        exact handleControlExit_isSome (by rw [hu]; rfl) hp'
      · rfl

theorem failUnit_isSome {msg : String} (hu : (m.units.get name).isSome) (hp : Pointed m) :
    (m.failUnit w name msg).isSome := by
  refine isSome_bind hu fun u _ ↦ ?_
  dsimp only
  split
  · rfl
  · next jid hx =>
    obtain ⟨job, hj, -⟩ := hp name jid hx
    refine isSome_bind (by rw [show (m.setActive w name .failed .failed u.result).jobs = m.jobs from rfl, hj]; rfl)
      fun job _ ↦ ?_
    split <;> rfl

end Processes

section UnitTypes

theorem startActive_isSome {sub : SubState} (hp : Pointed m) : (m.startActive w name sub).isSome := by
  unfold Manager.startActive
  split
  · exact setActive_complete_isSome hp
  · rfl

theorem startService_isSome (hp : Pointed m) : (m.startService w name).isSome := by
  unfold Manager.startService
  split
  · rfl
  · next u hu =>
    have hu₁ : ((m.beginService w name).units.get name).isSome := by
      rw [Manager.beginService, isSome_modifyUnit, hu]
      rfl
    dsimp only
    split
    · exact spawnControl_isSome hu₁ hp
    · exact spawnControl_isSome hu₁ hp

theorem bindListeners_pointed (service : Name) (i : Nat) (ls : List (SocketType × String))
    (hp : Pointed m) : Pointed (m.bindListeners w name service i ls).1 := by
  have hl : Local name m (m.bindListeners w name service i ls).1 :=
    (bindListeners_keeps service i ls m).toLocal
  rw [Pointed, hl.jobs, hl.unitJob]
  exact hp

theorem startSocket_isSome (hu : (m.units.get name).isSome) (hp : Pointed m) :
    (m.startSocket w name).isSome := by
  refine isSome_bind hu fun u _ ↦ ?_
  split
  · exact startActive_isSome hp
  · split
    · exact startActive_isSome hp
    · dsimp only
      split
      · exact startActive_isSome (bindListeners_pointed _ _ _ hp)
      · rfl

theorem startMount_isSome (hu : (m.units.get name).isSome) (hp : Pointed m) :
    (m.startMount w name).isSome := by
  refine isSome_bind hu fun u _ ↦ ?_
  split
  · rfl
  · split
    · exact setActive_complete_isSome hp
    · rfl

theorem doStart_isSome (hu : (m.units.get name).isSome) (hp : Pointed m) :
    (m.doStart w name).isSome := by
  unfold Manager.doStart
  split
  · exact startService_isSome hp
  · exact startActive_isSome hp
  · exact startActive_isSome hp
  · exact startActive_isSome hp
  · exact startSocket_isSome hu hp
  · exact startActive_isSome hp
  · exact startMount_isSome hu hp

theorem stopService_isSome (hu : (m.units.get name).isSome) (hp : Pointed m) :
    (m.stopService w name).isSome := by
  refine isSome_bind hu fun u _ ↦ ?_
  split
  · rfl
  · split
    · exact finalizeStop_isSome hu hp
    · exact spawnControl_isSome (by rwa [isSome_modifyUnit]) hp

theorem stopMount_isSome (hu : (m.units.get name).isSome) (hp : Pointed m) :
    (m.stopMount w name).isSome := by
  refine isSome_bind hu fun u _ ↦ ?_
  split
  · exact finalizeStop_isSome hu hp
  · split
    · exact finalizeStop_isSome hu hp
    · rfl

theorem doStop_isSome (hu : (m.units.get name).isSome) (hp : Pointed m) :
    (m.doStop w name).isSome := by
  refine isSome_bind hu fun u _ ↦ ?_
  have hp₁ : Pointed (m.setActive w name .deactivating .stop .success) := hp
  have hu₁ : ((m.setActive w name .deactivating .stop .success).units.get name).isSome := by
    rwa [Manager.setActive, isSome_modifyUnit]
  dsimp only
  split
  · exact stopService_isSome hu₁ hp₁
  · exact finalizeStop_isSome hu₁ hp₁
  · exact finalizeStop_isSome hu₁ hp₁
  · exact finalizeStop_isSome hu₁ hp₁
  · exact finalizeStop_isSome hu₁ hp₁
  · exact finalizeStop_isSome hu₁ hp₁
  · exact stopMount_isSome hu₁ hp₁

end UnitTypes

section JobEngine

theorem jobKindOf_isSome (hp : Pointed m) (n : Name) : (m.jobKindOf n).isSome := by
  unfold Manager.jobKindOf
  split
  · rfl
  · next jid hx =>
    obtain ⟨job, hj, -⟩ := hp n jid hx
    rw [hj]
    rfl

theorem requisiteWaits_isSome (hp : Pointed m) (names : List Name) (waiting : List WaitEntry) :
    (m.requisiteWaits names waiting).isSome := by
  induction names generalizing waiting with
  | nil => rfl
  | cons r names ih =>
    unfold Manager.requisiteWaits
    split
    · exact ih waiting
    · split
      · next hn => exact absurd (jobKindOf_isSome hp r) (by rw [hn]; simp)
      · exact ih _
      · rfl

theorem orderingWaits_isSome (hp : Pointed m) (before : Bool) (names : List Name)
    (waiting : List WaitEntry) : (m.orderingWaits before names waiting).isSome := by
  induction names generalizing waiting with
  | nil => rfl
  | cons a names ih =>
    unfold Manager.orderingWaits
    split
    · exact ih waiting
    · split
      · next hn => exact absurd (jobKindOf_isSome hp a) (by rw [hn]; simp)
      · exact ih _
      · exact ih waiting

theorem Pointed.modifyJob (hp : Pointed m) {f : Job → Job} (hf : ∀ j, (f j).unit = j.unit) :
    Pointed (m.modifyJob id f) := Index.Points.modify hp hf

theorem expandOpening_isSome (hp : Pointed m) : (m.expandOpening id name).isSome := by
  have hp' : Pointed (m.modifyJob id fun job ↦ { job with expanding := true }) :=
    hp.modifyJob fun _ ↦ rfl
  refine isSome_bind (requisiteWaits_isSome hp' _ _) fun r _ ↦ ?_
  cases r <;> rfl

theorem expandStartJob_isSome (hp : Pointed m) : (m.expandStartJob w id name).isSome := by
  unfold Manager.expandStartJob
  split
  · rfl
  · split
    · exact expandOpening_isSome hp
    · split <;> rfl

theorem enqueueStartJobMode_isSome {mode : JobMode} (hm : Sound m) :
    (m.enqueueStartJobMode w name mode).isSome :=
  expandStartJob_isSome (Fine.newJob hm .start name mode none (by simp)).sound.points

theorem expandFinish_isSome {waiting : List WaitEntry} (hu : (m.units.get name).isSome)
    (hp : Pointed m) : (m.expandFinish w id name waiting).isSome :=
  isSome_bind hu fun _ _ ↦ isSome_bind (orderingWaits_isSome hp _ _ _) fun _ _ ↦
    isSome_bind (orderingWaits_isSome hp _ _ _) fun _ _ ↦ rfl

theorem expandOpen_isSome {needs ds : List Name} {waiting : List WaitEntry}
    (hu : (m.units.get name).isSome) (hp : Pointed m) (hid : (m.jobs.get id).isSome) :
    (m.expandOpen w id name needs waiting ds).isSome := by
  unfold Manager.expandOpen
  split
  · exact expandFinish_isSome hu hp
  · dsimp only
    split
    · rfl
    · split
      · split
        · rw [if_pos (show m.jobs.contains id from hid)]
          rfl
        · rfl
      · split
        · next hn => exact absurd (jobKindOf_isSome hp _) (by rw [hn]; simp)
        · rfl
        · rfl

theorem stopConflict_isSome (hp : Pointed m) : (m.stopConflict w name).isSome := by
  unfold Manager.stopConflict
  split
  · rfl
  · split
    · next hn => exact absurd (jobKindOf_isSome hp name) (by rw [hn]; simp)
    · split <;> rfl

theorem maybeStartJob_isSome (hp : Pointed m) (hid : (m.jobs.get id).isSome)
    (hu : ∀ job, m.jobs.get id = some job → (m.units.get job.unit).isSome) :
    (m.maybeStartJob w id).isSome := by
  refine isSome_bind hid fun job hj ↦ ?_
  split
  · rfl
  · split
    · rfl
    · refine isSome_bind (hu job hj) fun u _ ↦ ?_
      dsimp only
      split
      · rfl
      · exact doStart_isSome (by rw [isSome_modifyUnit]; exact hu job hj) (hp.modifyJob fun _ ↦ rfl)

theorem maybeStopJob_isSome (hp : Pointed m) (hid : (m.jobs.get id).isSome)
    (hu : ∀ job, m.jobs.get id = some job → (m.units.get job.unit).isSome) :
    (m.maybeStopJob w id).isSome := by
  refine isSome_bind hid fun job hj ↦ ?_
  split
  · rfl
  · split
    · rfl
    · have hp' : Pointed { m with unitJob := m.unitJob.insert job.unit id } :=
        Index.Points.reindex hp hj
      exact doStop_isSome (hu job hj) (hp'.modifyJob fun _ ↦ rfl)

end JobEngine

section Requests

theorem startWithMode_isSome {mode : JobMode} (hm : Sound m) :
    (m.startWithMode w name mode).isSome := by
  unfold Manager.startWithMode
  split
  · rfl
  · next m₁ hl =>
    have hm₁ : Sound m₁ := (Adds.fine hm (ensureUnitLoaded_adds hl)).sound
    split
    · rfl
    · split
      · rfl
      · split
        · rfl
        · split
          · split
            · rfl
            · split <;> rfl
          · rw [Option.isSome_map]
            exact enqueueStartJobMode_isSome hm₁

theorem restart_isSome (hm : Sound m) : (m.restart w name).isSome := by
  unfold Manager.restart
  split
  · rfl
  · split
    · split <;> rfl
    · rw [Option.isSome_map]
      exact startWithMode_isSome hm

theorem nowRunning_isSome (hp : Pointed m) : (m.nowRunning w name).isSome := by
  unfold Manager.nowRunning
  split
  · exact setActive_complete_isSome hp
  · rfl

theorem rearmTimer_isSome (hu : (m.units.get name).isSome) : (m.rearmTimer w name).isSome := by
  unfold Manager.rearmTimer
  dsimp only
  split
  · rfl
  · refine isSome_bind hu fun u _ ↦ ?_
    split <;> rfl

theorem rearmTimers_isSome {names : List Name} (hu : ∀ n ∈ names, (m.units.get n).isSome) :
    (m.rearmTimers w names).isSome := by
  induction names generalizing m with
  | nil => rfl
  | cons a names ih =>
    refine isSome_bind (rearmTimer_isSome (hu a (List.mem_cons_self ..))) fun m' hm' ↦ ih fun n hn ↦ ?_
    rw [(Quiet.rearmTimer hm').isSome]
    exact hu n (List.mem_cons_of_mem _ hn)

theorem timerNames_isSome : ∀ n ∈ m.timerNames w, (m.units.get n).isSome := by
  intro n hn
  obtain ⟨u, hu, -⟩ := (Option.any_eq_true ..).mp (List.mem_filter.mp hn).2
  rw [hu]
  rfl

theorem fireServiceTimer_isSome {kind : TimerKind} (hp : Pointed m) :
    (m.fireServiceTimer w name kind).isSome := by
  unfold Manager.fireServiceTimer
  split
  · rfl
  · next u hu =>
    have hu : (m.units.get name).isSome := by rw [hu]; rfl
    split
    · split
      · rw [Option.isSome_map]
        exact doStart_isSome hu hp
      · rfl
    · split <;> rfl
    · split
      · exact finalizeStop_isSome (m := m.killTreeKill name) hu hp
      · rfl
    · rfl
    · rfl

end Requests

/-- No call crashes that is about loaded units and about a job that is there. -/
theorem exec_isSome (hm : Sound m) (hs : ∀ n ∈ c.subject, (m.units.get n).isSome)
    (hu : ∀ id job, m.jobs.get id = some job → (m.units.get job.unit).isSome)
    (hid : ∀ id ∈ c.jobId, (m.jobs.get id).isSome)
    (hk : ∀ name sig, c = .kill name sig → (m.units.get name).isSome) : (exec w c m).isSome := by
  have hp := hm.points
  cases c with
  | start name mode => exact (Option.isSome_map ..).trans (startWithMode_isSome hm)
  | revive name => exact isSome_bind (hs name rfl) fun _ _ ↦ rfl
  | restart name => exact (Option.isSome_map ..).trans (restart_isSome hm)
  | restartActivated name | tryRestart name =>
    change (if _ then _ else _ : Option Out).isSome
    split
    · exact (Option.isSome_map ..).trans (restart_isSome hm)
    · rfl
  | restartOrStart name =>
    change (if _ then _ else _ : Option Out).isSome
    split
    · exact (Option.isSome_map ..).trans (restart_isSome hm)
    · exact (Option.isSome_map ..).trans (startWithMode_isSome hm)
  | reload name =>
    change (m.reload w name).isSome
    unfold Manager.reload
    split
    · rfl
    · next u hu =>
      split
      · exact spawnControl_isSome (by rw [hu]; rfl) hp
      · rfl
  | kill name sig => exact isSome_bind (hk name sig rfl) fun _ _ ↦ rfl
  | loadAll =>
    refine (Option.isSome_map ..).trans (rearmTimers_isSome fun n hn ↦ ?_)
    exact timerNames_isSome n hn
  | notify ready pid =>
    change (m.handleNotify w ready pid).isSome
    unfold Manager.handleNotify
    split
    · rfl
    · split
      · exact nowRunning_isSome hp
      · rfl
  | nameAcquired busName =>
    change (m.nameAcquired w busName).isSome
    unfold Manager.nameAcquired
    split
    · rfl
    · exact nowRunning_isSome (m := { m with pendingBusNames := m.pendingBusNames.remove busName }) hp
  | enqueueStartJob name => exact enqueueStartJobMode_isSome hm
  | stopConflict name => exact stopConflict_isSome hp
  | expandOpen id name needs waiting ds => exact expandOpen_isSome (hs name rfl) hp (hid id rfl)
  | maybeStartJob id => exact maybeStartJob_isSome hp (hid id rfl) (hu id)
  | maybeStopJob id => exact maybeStopJob_isSome hp (hid id rfl) (hu id)
  | failUnit name msg => exact failUnit_isSome (hs name rfl) hp
  | fireOnFailure name => exact isSome_bind (hs name rfl) fun _ _ ↦ rfl
  | armStartTimeout name => exact (Option.isSome_map ..).trans (hs name rfl)
  | timerDepCheck => exact (Option.isSome_map ..).trans (rearmTimers_isSome timerNames_isSome)
  | fireTimer name kind =>
    change (m.fireTimer w name kind).isSome
    unfold Manager.fireTimer
    split
    · exact fireServiceTimer_isSome hp
    · rfl
  | rearmTimer name => exact (Option.isSome_map ..).trans (rearmTimer_isSome (hs name rfl))
  | processExit pid exit => exact processExit_isSome hp
  | mainExit name exit => exact mainExit_isSome (hs name rfl) hp
  | startIgnoreDependencies | stop | enqueueStop | isolate | resetFailed | shutdown | loadUnit
  | udevRegister | udevRemove | tick | reap | pollPaths | socketReady | stopDependent
  | processJobs | processPass | jobCompleted | pokeFailedJob => rfl

end Rystemd
