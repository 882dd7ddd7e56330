import Rystemd.Cases

namespace Rystemd

/-- The job tables are the same. -/
structure SameJobs (m m' : Manager) : Prop where
  jobs : m'.jobs = m.jobs
  unitJob : m'.unitJob = m.unitJob
  nextJob : m'.nextJob = m.nextJob
  completedJobs : m'.completedJobs = m.completedJobs

/-- The calls that take units out of the table. -/
def Call.unloads : Call → Bool
  | .loadAll | .udevRemove _ => true
  | _ => false

/-- The calls that commit the wait list of a job. -/
def Call.commits (id : JobId) : Call → Prop
  | .expandOpen i _ _ _ [] => i = id
  | _ => False

/-- The calls that take the waits of a job for a unit from it. -/
def Call.releases (id : JobId) (unit : Name) (c : Call) : Prop :=
  (∃ ok, c = .jobCompleted id unit ok) ∨ c = .pokeFailedJob id unit

/-- How a call changes a job in place. -/
inductive Edit (c : Call) (id : JobId) : (Job → Job) → Prop
  | fails (msg : String) : Edit c id fun job ↦ { job with failed := true, failedMsg := some msg }
  | explains (msg : String) : Edit c id fun job ↦ { job with failedMsg := some msg }
  | expands : Edit c id fun job ↦ { job with expanding := true }
  | commits (failed : Option Name) (keep : WaitEntry → Bool) (waiting : List WaitEntry) :
      c.commits id → Edit c id fun job ↦
        let job := match failed with
          | none => job
          | some dep => { job with failed := true, failedMsg := some s!"Dependency failed: {dep}" }
        { job with waiting := waiting.filter keep, expanding := false }
  | starts : c = .maybeStartJob id ∨ c = .maybeStopJob id →
      Edit c id fun job ↦ { job with started := true }
  | releases (unit : Name) : c.releases id unit → Edit c id (Manager.withoutWait unit)
  | locks (name : Name) (mode : JobMode) : c = .stop name mode →
      Edit c id fun job ↦ { job with mode }

/-- With which result a job leaves the table. -/
inductive Verdict (job : Job) : Bool → Option String → Prop
  | done : Verdict job true none
  | failed : Verdict job false job.failedMsg
  | canceled (msg : String) : Verdict job false (some msg)

/-- The calls that restart a unit. -/
def Call.restarts (name : Name) : Call → Prop
  | .restart n | .restartActivated n | .tryRestart n | .restartOrStart n => n = name
  | _ => False

/-- For which reasons a job is created. -/
inductive Enqueues (c : Call) (m : Manager) : JobKind → Name → JobMode → Option Name → Prop
  | start (name : Name) (mode : JobMode) : (m.units.get name).isSome → m.shuttingDown = false →
      m.unitActive name = false → m.jobOf name = none → Enqueues c m .start name mode none
  | ignoring (name : Name) : c = .startIgnoreDependencies name → (m.units.get name).isSome →
      m.unitActive name = false → m.unitJob.get name = none → Enqueues c m .start name .replace none
  | dependency (name : Name) : c = .enqueueStartJob name → Enqueues c m .start name .replace none
  | stop (name : Name) (mode : JobMode) : m.unitOperational name → Enqueues c m .stop name mode none
  | stopNext (name : Name) (mode : JobMode) : c = .enqueueStop name mode →
      Enqueues c m .stop name mode none
  | restart (name : Name) : c.restarts name → m.unitOperational name →
      Enqueues c m .stop name .replace (some name)

/-- The elementary changes of the job table in a call that finds the state `m₀`. -/
inductive JobStep (c : Call) (m₀ : Manager) : Manager → Manager → Prop
  | same {m m' : Manager} : SameJobs m m' →
      (c.unloads = false → ∀ n, (m.units.get n).isSome → (m'.units.get n).isSome) → JobStep c m₀ m m'
  | edits {m : Manager} (id : JobId) {f : Job → Job} : Edit c id f →
      JobStep c m₀ m (m.modifyJob id f)
  | finishes {m : Manager} {id : JobId} {job : Job} {ok : Bool} {error : Option String} :
      m.jobs.get id = some job → Verdict job ok error →
      JobStep c m₀ m ((m.recordJobResult id ok error).removeJob id job.unit)
  | enqueues {m : Manager} {kind : JobKind} {name : Name} {mode : JobMode} {next : Option Name} :
      Enqueues c m kind name mode next → JobStep c m₀ m (m.newJob kind name mode next).2
  | reindexes {id : JobId} {job : Job} : c = .maybeStopJob id → m₀.jobs.get id = some job →
      m₀.unitOperational job.unit → job.started = false →
      JobStep c m₀ m₀ { m₀ with unitJob := m₀.unitJob.insert job.unit id }
  | drops {name : Name} {id : JobId} {job : Job} : c.restarts name → m₀.unitOperational name →
      m₀.jobOf name = some (id, job) → job.kind = .start →
      JobStep c m₀ m₀ { m₀ with unitJob := m₀.unitJob.remove name, jobs := m₀.jobs.remove id }
  | forgets {name : Name} {id : JobId} : c = .startIgnoreDependencies name →
      (m₀.units.get name).isSome → m₀.unitActive name = false → m₀.unitJob.get name = some id →
      JobStep c m₀ m₀ { m₀ with
        unitJob := m₀.unitJob.remove name
        jobs := (m₀.jobs.remove id).mapValues (Manager.withoutWait name) }

/-- A chain of elementary changes. -/
abbrev JobSteps (c : Call) (b : Manager) := Relation.ReflTransGen (JobStep c b)

variable {w : World} {c : Call} {b m m' : Manager} {name : Name} {out : Out} {id : JobId} {job : Job}
  {kind : JobKind}

theorem Edit.same {f : Job → Job} (h : Edit c id f) (job : Job) :
    (f job).unit = job.unit ∧ (f job).kind = job.kind ∧
      (f job).startAfterStop = job.startAfterStop := by
  cases h with
  | commits failed => cases failed <;> exact ⟨rfl, rfl, rfl⟩
  | _ => exact ⟨rfl, rfl, rfl⟩

/-- What every elementary change keeps, a chain of them keeps. -/
theorem JobSteps.keeps {I : Manager → Prop} (hstep : ∀ {m m'}, JobStep c b m m' → I m → I m')
    (h : JobSteps c b m m') (hm : I m) : I m' := by
  induction h with
  | refl => exact hm
  | tail _ hs ih => exact hstep hs ih

/-- But for a reload and the removal of a device, no unit is lost. -/
theorem JobSteps.loaded (h : JobSteps c b m m') (hc : c.unloads = false) (n : Name)
    (hn : (m.units.get n).isSome) : (m'.units.get n).isSome := by
  refine h.keeps (I := fun m ↦ (m.units.get n).isSome) (fun hs hm ↦ ?_) hn
  cases hs with
  | same _ hl => exact hl hc n hm
  | _ => exact hm

namespace JobSteps

theorem of_eq (hj : m'.jobs = m.jobs) (hx : m'.unitJob = m.unitJob) (hn : m'.nextJob = m.nextJob)
    (hc : m'.completedJobs = m.completedJobs)
    (hl : c.unloads = false → ∀ n, (m.units.get n).isSome → (m'.units.get n).isSome) :
    JobSteps c b m m' := .single (.same ⟨hj, hx, hn, hc⟩ hl)

theorem local_ (h : Local name m m') : JobSteps c b m m' :=
  .of_eq h.jobs h.unitJob h.nextJob h.completedJobs fun _ n hn ↦ by rwa [h.isSome]

theorem quiet (h : Quiet m m') : JobSteps c b m m' :=
  .of_eq h.jobs h.unitJob h.nextJob h.completedJobs fun _ n hn ↦ by rwa [h.isSome]

theorem adds (h : Adds m m') : JobSteps c b m m' :=
  .of_eq h.jobs h.unitJob h.nextJob h.completedJobs fun _ _ hn ↦ h.isSome hn

theorem edit {f : Job → Job} (hf : Edit c id f) : JobSteps c b m (m.modifyJob id f) := .single (.edits id hf)

theorem finishJob : JobSteps c b m (m.finishJob w id).1 := by
  unfold Manager.finishJob
  split
  · exact .refl
  · next hj => exact .single (.finishes hj .done)

theorem finishJobFailed : JobSteps c b m (m.finishJobFailed w id).1 := by
  unfold Manager.finishJobFailed
  split
  · exact .refl
  · next hj => exact .single (.finishes hj .failed)

theorem cancelJob {msg : String} : JobSteps c b m (m.cancelJob w id msg).1 := by
  unfold Manager.cancelJob
  split
  · exact .refl
  · next hj => exact .single (.finishes hj (.canceled msg))

theorem tryAdvanceJob : JobSteps c b m (m.tryAdvanceJob w id).2.1 := by
  unfold Manager.tryAdvanceJob
  split
  · exact .refl
  · split
    · split
      · exact .refl
      · split
        · exact finishJobFailed
        · split <;> exact .refl
    · split <;> exact .refl
    · exact .refl

theorem releaseWait (hc : c.releases id name) : JobSteps c b m (m.releaseWait w id job name).1 := by
  have h : JobSteps c b m (m.modifyJob id (Manager.withoutWait name)) := edit (.releases name hc)
  unfold Manager.releaseWait
  dsimp only
  split
  · exact h
  · exact h.trans tryAdvanceJob

theorem jobCompleted {ok : Bool} :
    JobSteps (.jobCompleted id name ok) b m (m.jobCompleted w id name ok).1 := by
  unfold Manager.jobCompleted
  split
  · exact .refl
  · split
    · exact edit (.fails _)
    · exact releaseWait (.inl ⟨ok, rfl⟩)

theorem pokeFailedJob :
    JobSteps (.pokeFailedJob id name) b m (m.pokeFailedJob w id name).1 := by
  unfold Manager.pokeFailedJob
  split
  · exact .refl
  · split
    · have h : JobSteps (.pokeFailedJob id name) b m
          (m.modifyJob id (Manager.dependencyFailed name)) := edit (.fails _)
      exact h.trans finishJobFailed
    · exact releaseWait (.inr rfl)

theorem completeJob {kinds : JobKind → Bool} (h : m.completeJob w name kinds = some out) :
    JobSteps c b m out.1 := by
  rcases completeJob_cases h with ⟨-, rfl⟩ | ⟨_, _, -, -, ⟨-, rfl⟩ | ⟨-, rfl⟩⟩
  · exact .refl
  · exact finishJob
  · exact .refl

theorem ends (h : Ends w name kind m out) : JobSteps c b m out.1 := by
  induction h with
  | waits hk => exact local_ hk.toLocal
  | fails msg rest hk _ => exact local_ hk.toLocal
  | completes hp _ ho _ =>
    have hj := completeJob (c := c) (b := b) ho
    exact (local_ hp.toLocal).trans hj
  | stops hp ho =>
    have hj := completeJob (c := c) (b := b) ho
    exact (local_ hp.toLocal).trans hj
  | spawns idx main hk _ _ _ _ _ _ ih => exact (local_ (hk.toLocal.trans .recordSpawn)).trans ih

theorem activeExit (h : ActiveExit w name m out) : JobSteps c b m out.1 := by
  cases h with
  | limit hp | failed hp => exact local_ hp.toLocal
  | restart delay hk _ => exact local_ (hk.toLocal.trans scheduleRestart_local)
  | ended hp _ ho =>
    have hj := completeJob (c := c) (b := b) ho
    exact (local_ hp.toLocal).trans hj

theorem mainExit {exit : ChildExit} (h : m.mainExit w name exit = some out) : JobSteps c b m out.1 := by
  have hf : JobSteps c b m (m.forgetMain name) := local_ Touches.forgetMain.toLocal
  obtain ⟨u, -, h⟩ := mainExit_ends h
  refine hf.trans ?_
  cases h with
  | stopped _ he => exact ends he
  | vanished _ _ hp => exact local_ hp.toLocal
  | fails _ hk => exact local_ hk.toLocal
  | active _ _ he => exact activeExit he

theorem failUnit {msg : String} (h : m.failUnit w name msg = some out) : JobSteps c b m out.1 := by
  obtain ⟨m', hp, ⟨jid, job, -, -, -, rfl⟩ | ⟨-, rfl⟩⟩ := failUnit_ends h
  · have he : JobSteps c b m' (m'.modifyJob jid fun job ↦ { job with failedMsg := some msg }) :=
      edit (.explains msg)
    exact ((local_ hp.toLocal).trans he).trans finishJobFailed
  · exact local_ hp.toLocal

theorem handleControlExit {exit : ChildExit} (h : m.handleControlExit w name exit = some out) :
    JobSteps c b m out.1 := by
  have hf : JobSteps c b m (m.forgetControl name) := local_ Touches.forgetControl.toLocal
  rcases handleControlExit_cases h with ⟨-, he⟩ | ⟨-, m', rfl | ⟨pid, rfl⟩, he⟩ | ⟨-, rfl⟩ | rfl
  · exact hf.trans (ends he)
  · exact hf.trans (ends he)
  · exact (hf.trans (local_ .adoptPid)).trans (ends he)
  · exact hf
  · exact hf

theorem doStart (h : m.doStart w name = some out) : JobSteps c b m out.1 := by
  obtain ⟨m', hl, -, he⟩ := (doStart_begins h).ends
  exact (local_ hl.toLocal).trans (ends he)

theorem doStop (h : m.doStop w name = some out) : JobSteps c b m out.1 := by
  obtain ⟨m', hp, he⟩ := doStop_begins h
  exact (local_ hp.toLocal).trans (ends he)

theorem maybeStartJob (h : m.maybeStartJob w id = some out) :
    JobSteps (.maybeStartJob id) b m out.1 := by
  obtain ⟨job, hj, ⟨-, rfl⟩ | ⟨-, -, rfl⟩ | ⟨-, -, -, -, m', hk, h⟩⟩ := maybeStartJob_cases h
  · exact finishJobFailed
  · exact .refl
  · have h₁ : JobSteps (.maybeStartJob id) b m (m.markStarted id) := edit (.starts (.inl rfl))
    refine (h₁.trans (local_ hk.toLocal)).trans ?_
    rcases h with ⟨msg, rfl⟩ | h
    · have h₂ : JobSteps (.maybeStartJob id) b m' (m'.setFailed id msg) := edit (.fails msg)
      exact h₂.trans finishJobFailed
    · exact doStart h

theorem maybeStopJob (h : m.maybeStopJob w id = some out) : JobSteps (.maybeStopJob id) m m out.1 := by
  obtain ⟨job, hj, ⟨-, rfl⟩ | ⟨-, -, rfl⟩ | ⟨ho, hs, h⟩⟩ := maybeStopJob_cases h
  · exact finishJob
  · exact .refl
  · refine .head (.reindexes rfl hj ho hs) (Relation.ReflTransGen.trans ?_ (doStop h))
    exact edit (.starts (.inr rfl))

theorem expands (h : Expands w m id name out) : JobSteps c b m out.1 := by
  have he : JobSteps c b m (m.markExpanding id) := edit .expands
  cases h with
  | missing msg => exact edit (.fails msg)
  | asserted msg => exact local_ Keeps.setResult.toLocal
  | skipped => exact finishJob
  | requisite msg =>
    refine he.trans ?_
    exact edit (.fails msg)
  | opens => exact he

theorem enqueueStartJob {mode : JobMode} (hq : Enqueues c m .start name mode none)
    (h : m.enqueueStartJobMode w name mode = some out) : JobSteps c b m out.1 :=
  .head (.enqueues hq) (expands (expandStartJob_cases h))

theorem enqueueStop {mode : JobMode} {next : Option Name} (hq : Enqueues c m .stop name mode next) :
    JobSteps c b m (m.enqueueStopJobAfterMode w name next mode).1 := .single (.enqueues hq)

theorem opens {needs ds : List Name} {waiting : List WaitEntry}
    (h : Opens w m id name needs waiting ds out) :
    JobSteps (.expandOpen id name needs waiting ds) b m out.1 := by
  cases h with
  | finish u after before => exact edit (.commits (m.syncFailed before) _ before rfl)
  | missing d ds msg => exact edit (.fails msg)
  | skip | pending | new => exact .refl

theorem starts {mode : JobMode} {reply : Manager.StartReply} (h : Starts w m name mode reply out) :
    JobSteps c b m out.1 := by
  cases h with
  | unloadable => exact .refl
  | shutdown hl | active hl | pending hl | irreversible e hl => exact adds (ensureUnitLoaded_adds hl)
  | cancels msg hl => exact (adds (ensureUnitLoaded_adds hl)).trans cancelJob
  | enqueues hl hs ha hj ho =>
    have hq : Enqueues c _ .start name mode none := .start name mode (ensureUnitLoaded_isSome hl) hs ha hj
    have he := enqueueStartJob (b := b) hq ho
    exact (adds (ensureUnitLoaded_adds hl)).trans he

theorem restart {reply : Manager.Reply} (hc : c.restarts name)
    (h : m.restart w name = some (reply, out)) : JobSteps c m m out.1 := by
  rcases restart_cases h with ⟨-, rfl⟩ | ⟨-, rfl, -⟩ | ⟨ho, cs, -, rfl⟩ | ⟨-, reply', h, -⟩
  · exact .refl
  · exact .refl
  · have hd : JobSteps c m m (m.dropStartJob name) ∧ (m.dropStartJob name).unitOperational name := by
      unfold Manager.dropStartJob
      split
      · exact ⟨.refl, ho⟩
      · next hj =>
        split
        · next hk => exact ⟨.single (.drops hc ho hj hk), ho⟩
        · exact ⟨.refl, ho⟩
    exact hd.1.trans (enqueueStop (w := w) (.restart name hc hd.2))
  · exact starts h

theorem stopWithMode {mode : JobMode} :
    JobSteps (.stop name mode) b m (m.stopWithMode w name mode).2.1 := by
  unfold Manager.stopWithMode
  split
  · exact .refl
  · split
    · exact .refl
    · next ho =>
      have ho : m.unitOperational name := by simpa using ho
      split
      · exact enqueueStop (w := w) (.stop name mode ho)
      · split
        · exact cancelJob
        · split
          · exact edit (.locks name mode rfl)
          · exact .refl

theorem startIgnoreDependencies :
    JobSteps (.startIgnoreDependencies name) m m (m.startIgnoreDependencies name).2.1 := by
  unfold Manager.startIgnoreDependencies
  split
  · exact .refl
  · next hu =>
    have hu : (m.units.get name).isSome := by
      rwa [Bool.not_eq_true', Bool.not_eq_false] at hu
    split
    · exact .refl
    · next ha =>
      have ha := eq_false_of_ne_true ha
      cases hx : m.unitJob.get name with
      | none =>
        rw [Manager.dropJob, hx]
        exact .single (.enqueues (.ignoring name rfl hu ha hx))
      | some id =>
        rw [Manager.dropJob, hx]
        exact .head (.forgets rfl hu ha hx)
          (.single (.enqueues (.ignoring name rfl hu ha Table.get_remove_self)))

theorem fireTimer {kind : TimerKind} (h : m.fireTimer w name kind = some out) :
    JobSteps c b m out.1 := by
  rcases fireTimer_cases h with h | ⟨m', target, hq, rfl⟩
  · cases h with
    | ignored => exact .refl
    | restart _ _ ho =>
      have hs := doStart (c := c) (b := b) ho
      exact hs
    | start msg _ hk => exact local_ hk.toLocal
    | stop _ he => exact ends he
  · exact quiet hq

theorem processExit {pid : Pid} {exit : ChildExit} (h : m.processExit w pid exit = some out) :
    JobSteps c b m out.1 := by
  have hq : JobSteps c b m (m.forgetPid pid) := quiet .forgetPid
  cases processExit_cases h with
  | ignored | main => exact hq
  | control _ _ _ _ h => exact hq.trans (handleControlExit h)

end JobSteps

/-- Every call changes the job table by elementary changes only. -/
theorem exec_jobSteps (h : exec w c m = some out) : JobSteps c m m out.1 := by
  cases c with
  | start name mode =>
    obtain ⟨r, hr, rfl⟩ := Option.map_eq_some_iff.mp h
    exact .starts (startWithMode_cases hr)
  | startIgnoreDependencies name => cases h; exact .startIgnoreDependencies
  | stop name mode => cases h; exact .stopWithMode
  | enqueueStop name mode => cases h; exact .enqueueStop (.stopNext name mode rfl)
  | revive name =>
    obtain ⟨m', hp, rfl⟩ := revive_puts h
    exact .local_ hp.toLocal
  | restart name =>
    obtain ⟨r, hr, rfl⟩ := Option.map_eq_some_iff.mp h
    exact .restart rfl hr
  | restartActivated name | tryRestart name =>
    change (if _ then _ else _) = _ at h
    split at h
    · obtain ⟨r, hr, rfl⟩ := Option.map_eq_some_iff.mp h
      exact .restart rfl hr
    · cases h
      exact .refl
  | restartOrStart name =>
    change (if _ then _ else _) = _ at h
    split at h
    · obtain ⟨r, hr, rfl⟩ := Option.map_eq_some_iff.mp h
      exact .restart rfl hr
    · obtain ⟨r, hr, rfl⟩ := Option.map_eq_some_iff.mp h
      exact .starts (startWithMode_cases hr)
  | reload name => exact .ends (reload_ends h .start)
  | kill name sig =>
    obtain ⟨u, -, h⟩ := Option.bind_eq_some_iff.mp h
    cases h
    split
    · exact .of_eq rfl rfl rfl rfl fun _ _ ↦ id
    · exact .refl
  | resetFailed name =>
    cases h
    rcases (resetFailed_cases : m.resetFailed name = m ∨ _) with he | ⟨-, hp⟩
    · rw [he]
    · exact .local_ hp.toLocal
  | shutdown =>
    cases h
    unfold Manager.shutdown
    split
    · exact .refl
    · exact .of_eq rfl rfl rfl rfl fun _ _ ↦ id
  | loadAll =>
    obtain ⟨m', hm', rfl⟩ := Option.map_eq_some_iff.mp h
    obtain ⟨m₁, ha, hq, -⟩ := loadAll_cases hm'
    have h₀ : JobSteps .loadAll m m { m with units := m.reloadUnits w } :=
      .of_eq rfl rfl rfl rfl (by simp [Call.unloads])
    exact (h₀.trans (JobSteps.adds ha)).trans (JobSteps.quiet hq)
  | loadUnit name => cases h; exact .adds busLoadUnit_adds
  | udevRegister device => cases h; exact .adds udevRegister_adds
  | udevRemove device => cases h; exact .of_eq rfl rfl rfl rfl (by simp [Call.unloads])
  | tick => cases h; exact .of_eq rfl rfl rfl rfl fun _ _ ↦ id
  | pollPaths => cases h; exact .quiet .pollPaths
  | notify ready pid =>
    rcases handleNotify_ends h with rfl | ⟨name, -, he⟩
    · exact .refl
    · exact .ends he
  | nameAcquired busName =>
    obtain ⟨name, m', hk, rfl | ⟨-, he⟩⟩ := nameAcquired_ends h
    · exact .local_ hk.toLocal
    · exact (JobSteps.local_ hk.toLocal).trans (JobSteps.ends he)
  | enqueueStartJob name => exact .enqueueStartJob (.dependency name rfl) h
  | stopConflict name =>
    rcases stopConflict_cases h with rfl | ⟨ho, rfl, -⟩
    · exact .refl
    · exact .enqueueStop (.stop name .replace ho)
  | stopDependent name =>
    cases h
    rcases stopDependent_cases name with he | ⟨ho, -, he⟩
    · rw [he]
    · rw [he]
      exact .enqueueStop (.stop name .replace ho)
  | expandOpen id name needs waiting ds => exact .opens (expandOpen_cases h)
  | maybeStartJob id => exact .maybeStartJob h
  | maybeStopJob id => exact .maybeStopJob h
  | processPass ids changed =>
    cases h
    unfold Manager.processPass
    split
    · exact .refl
    · exact .tryAdvanceJob
  | jobCompleted id unit ok => cases h; exact .jobCompleted
  | pokeFailedJob id name => cases h; exact .pokeFailedJob
  | failUnit name msg => exact .failUnit h
  | armStartTimeout name =>
    obtain ⟨u, -, h⟩ := Option.map_eq_some_iff.mp h
    cases h
    exact .of_eq rfl rfl rfl rfl fun _ _ ↦ id
  | timerDepCheck =>
    obtain ⟨m', hm', rfl⟩ := Option.map_eq_some_iff.mp h
    exact .quiet (.rearmTimers hm')
  | fireTimer name kind => exact .fireTimer h
  | rearmTimer name =>
    obtain ⟨m', hm', rfl⟩ := Option.map_eq_some_iff.mp h
    exact .quiet (.rearmTimer hm')
  | processExit pid exit => exact .processExit h
  | mainExit name exit => exact .mainExit h
  | isolate name | reap | socketReady fd | processJobs => cases h; exact .refl
  | fireOnFailure name =>
    obtain ⟨u, -, h⟩ := Option.bind_eq_some_iff.mp h
    cases h
    exact .refl

end Rystemd
