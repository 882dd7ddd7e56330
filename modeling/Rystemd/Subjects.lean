import Rystemd.JobSteps
import Rystemd.Nesting

namespace Rystemd

/-- The unit that a procedure is about and takes to be loaded. -/
def Call.subject : Call → Option Name
  | .enqueueStop name _ | .revive name | .enqueueStartJob name | .expandOpen _ name _ _ _
  | .failUnit name _ | .fireOnFailure name | .armStartTimeout name | .rearmTimer name
  | .mainExit name _ => some name
  | _ => none

/-- What a job starts after it is among the names in `L`. -/
def NextIn (L : Name → Prop) (m : Manager) : Prop :=
  ∀ id job n, m.jobs.get id = some job → job.startAfterStop = some n → L n

/-- The calls are about units with names in `L`. -/
def Subjects (L : Name → Prop) (cs : List Call) : Prop := ∀ c ∈ cs, ∀ n ∈ c.subject, L n

variable {w : World} {c : Call} {m m' m'' : Manager} {name : Name} {out : Out} {id : JobId}
  {job : Job} {kind : JobKind} {s : ActiveState} {L : Name → Prop} {cs cs' : List Call}

theorem NextIn.of_jobs (h : NextIn L m) (hj : m'.jobs = m.jobs) : NextIn L m' := by
  unfold NextIn
  rwa [hj]

theorem NextIn.modifyJob (h : NextIn L m) {f : Job → Job}
    (hf : ∀ j, (f j).startAfterStop = j.startAfterStop) : NextIn L (m.modifyJob id f) := by
  intro i job n hj hn
  rw [Manager.modifyJob, Table.get_modify] at hj
  split at hj
  · obtain ⟨j, hj', rfl⟩ := Option.map_eq_some_iff.mp hj
    exact h i j n hj' (by rwa [hf] at hn)
  · exact h i job n hj hn

namespace Subjects

theorem nil : Subjects L [] := by simp [Subjects]

theorem cons (h : ∀ n ∈ c.subject, L n) (hs : Subjects L cs) : Subjects L (c :: cs) := by
  intro c' hc'
  rcases List.mem_cons.mp hc' with rfl | hc'
  · exact h
  · exact hs c' hc'

theorem single (h : ∀ n ∈ c.subject, L n) : Subjects L [c] := cons h nil

theorem append (h : Subjects L cs) (h' : Subjects L cs') : Subjects L (cs ++ cs') :=
  fun c hc ↦ (List.mem_append.mp hc).elim (h c) (h' c)

theorem of_none (h : ∀ c ∈ cs, c.subject = none) : Subjects L cs := by
  intro c hc n hn
  rw [h c hc] at hn
  cases hn

theorem other (h : c.subject = none) : Subjects L [c] :=
  of_none fun c' hc' ↦ by rw [List.mem_singleton.mp hc', h]

theorem onJobCompleted {unit : Name} {ok : Bool} : Subjects L (m.onJobCompleted w unit ok) := by
  refine of_none fun c hc ↦ ?_
  obtain ⟨id, -, rfl⟩ := List.mem_map.mp hc
  rfl

theorem pokeFailed : Subjects L (m.pokeFailed w name) := by
  refine of_none fun c hc ↦ ?_
  obtain ⟨id, -, rfl⟩ := List.mem_map.mp hc
  rfl

theorem finishJob (h : NextIn L m) : Subjects L (m.finishJob w id).2 := by
  unfold Manager.finishJob
  split
  · exact nil
  · next job hj =>
    refine onJobCompleted.append fun c hc n hn ↦ ?_
    split at hc
    · obtain ⟨next, hnext, rfl⟩ := List.mem_map.mp hc
      cases hn
      exact h id job _ hj (Option.mem_toList.mp hnext)
    · cases hc

theorem finishJobFailed : Subjects L (m.finishJobFailed w id).2 := by
  unfold Manager.finishJobFailed
  split
  · exact nil
  · exact onJobCompleted

theorem cancelJob {msg : String} : Subjects L (m.cancelJob w id msg).2 := by
  unfold Manager.cancelJob
  split
  · exact nil
  · exact onJobCompleted

theorem tryAdvanceJob : Subjects L (m.tryAdvanceJob w id).2.2 := by
  have start : Subjects L [.maybeStartJob id] := other rfl
  have stop : Subjects L [.maybeStopJob id] := other rfl
  unfold Manager.tryAdvanceJob
  split
  · exact nil
  · split
    · split
      · exact nil
      · split
        · exact finishJobFailed
        · split
          · exact start
          · exact nil
    · split
      · exact stop
      · exact nil
    · exact nil

theorem releaseWait : Subjects L (m.releaseWait w id job name).2 := by
  unfold Manager.releaseWait
  dsimp only
  split
  · exact nil
  · exact tryAdvanceJob

theorem jobCompleted {ok : Bool} : Subjects L (m.jobCompleted w id name ok).2 := by
  unfold Manager.jobCompleted
  split
  · exact nil
  · split
    · exact nil
    · exact releaseWait

theorem pokeFailedJob : Subjects L (m.pokeFailedJob w id name).2 := by
  unfold Manager.pokeFailedJob
  split
  · exact nil
  · split
    · exact finishJobFailed
    · exact releaseWait

theorem completeJob {kinds : JobKind → Bool} (hn : NextIn L m)
    (h : m.completeJob w name kinds = some out) : Subjects L out.2 := by
  have ht : Subjects L [.timerDepCheck] := other rfl
  rcases completeJob_cases h with ⟨-, rfl⟩ | ⟨_, _, -, -, ⟨-, rfl⟩ | ⟨-, rfl⟩⟩
  · exact ht
  · exact (finishJob hn).append ht
  · exact ht

theorem ends (h : Ends w name kind m out) (hu : L name) (hn : NextIn L m) : Subjects L out.2 := by
  have self {n} (h : some name = some n) : L n := by
    cases h
    exact hu
  induction h with
  | waits => exact nil
  | fails msg rest _ hr =>
    rcases hr with rfl | rfl
    · exact single fun _ hn ↦ self hn
    · exact cons (fun _ hn ↦ self hn) (single fun _ hn ↦ self hn)
  | completes hp _ ho _ => exact completeJob (hn.of_jobs hp.jobs) ho
  | stops hp ho => exact completeJob (hn.of_jobs hp.jobs) ho
  | spawns _ _ hk _ _ _ _ _ _ ih => exact ih (hn.of_jobs (Local.recordSpawn.jobs.trans hk.jobs))

theorem activeExit (h : ActiveExit w name m out) (hu : L name) (hn : NextIn L m) :
    Subjects L out.2 := by
  have check : Subjects L [.timerDepCheck] := other rfl
  cases h with
  | limit => exact pokeFailed
  | restart => exact nil
  | ended hp _ ho => exact (completeJob (hn.of_jobs hp.jobs) ho).append check
  | failed =>
    refine pokeFailed.append (single fun _ hn ↦ ?_)
    cases hn
    exact hu

theorem mainExit {exit : ChildExit} (h : m.mainExit w name exit = some out) (hu : L name)
    (hn : NextIn L m) : Subjects L out.2 := by
  have hn : NextIn L (m.forgetMain name) := hn
  obtain ⟨u, -, h⟩ := mainExit_ends h
  cases h with
  | stopped _ he => exact ends he hu hn
  | vanished => exact nil
  | fails =>
    refine single fun _ hn ↦ ?_
    cases hn
    exact hu
  | active _ _ he => exact activeExit he hu hn

theorem failUnit {msg : String} (h : m.failUnit w name msg = some out) (hu : L name) :
    Subjects L out.2 := by
  have hf : Subjects L [.fireOnFailure name] := by
    refine single fun _ hn ↦ ?_
    cases hn
    exact hu
  obtain ⟨m', -, ⟨jid, job, -, -, -, rfl⟩ | ⟨-, rfl⟩⟩ := failUnit_ends h
  · exact finishJobFailed.append hf
  · exact pokeFailed.append hf

theorem handleControlExit {exit : ChildExit} (h : m.handleControlExit w name exit = some out)
    (hu : L name) (hn : NextIn L m) : Subjects L out.2 := by
  have hn : NextIn L (m.forgetControl name) := hn
  rcases handleControlExit_cases h with ⟨-, he⟩ | ⟨-, m', rfl | ⟨pid, rfl⟩, he⟩ | ⟨-, rfl⟩ | rfl
  · exact ends he hu hn
  · exact ends he hu hn
  · exact ends he hu (hn.of_jobs rfl)
  · refine single fun _ hn ↦ ?_
    cases hn
    exact hu
  · exact nil

theorem doStart (h : m.doStart w name = some out) (hu : L name) (hn : NextIn L m) :
    Subjects L out.2 := by
  obtain ⟨m', ht, -, he⟩ := (doStart_begins h).ends
  exact ends he hu (hn.of_jobs ht.jobs)

theorem doStop (h : m.doStop w name = some out) (hu : L name) (hn : NextIn L m) :
    Subjects L out.2 := by
  obtain ⟨m', hp, he⟩ := doStop_begins h
  exact ends he hu (hn.of_jobs hp.jobs)

theorem expands (h : Expands w m id name out) (hu : L name) (hn : NextIn L m) :
    Subjects L out.2 := by
  have start : Subjects L [.maybeStartJob id] := other rfl
  cases h with
  | missing | requisite => exact start
  | asserted msg =>
    refine single fun _ hn ↦ ?_
    cases hn
    exact hu
  | skipped => exact finishJob hn
  | opens waiting _ =>
    refine Subjects.append (of_none fun c hc ↦ ?_) (single fun _ hn ↦ ?_)
    · obtain ⟨n, -, rfl⟩ := List.mem_map.mp hc
      rfl
    · cases hn
      exact hu

theorem enqueueStartJob {mode : JobMode} (h : m.enqueueStartJobMode w name mode = some out)
    (hu : L name) (hn : NextIn L m) : Subjects L out.2 := by
  refine expands (expandStartJob_cases h) hu fun i job n hj hnext ↦ ?_
  rw [Manager.newJob, Table.get_insert] at hj
  split at hj
  · cases hj
    cases hnext
  · exact hn i job n hj hnext

theorem enqueueStop {mode : JobMode} {next : Option Name} :
    Subjects L (m.enqueueStopJobAfterMode w name next mode).2 := by
  refine Subjects.append (of_none fun c hc ↦ ?_) (other rfl)
  obtain ⟨n, -, rfl⟩ := List.mem_map.mp hc
  rfl

theorem starts {mode : JobMode} {reply : Manager.StartReply} (h : Starts w m name mode reply out)
    (hu : ∀ n, (out.1.units.get n).isSome → L n) (hn : NextIn L m) : Subjects L out.2 := by
  have loaded {m'} (hl : m.ensureUnitLoaded w name = .ok m')
      (hs : JobSteps (.start name mode) m m' out.1) : L name :=
    hu name (hs.loaded rfl name (ensureUnitLoaded_isSome hl))
  cases h with
  | unloadable | shutdown | active | pending | irreversible => exact nil
  | cancels msg hl =>
    refine cancelJob.append (single fun n hn ↦ ?_)
    cases hn
    exact loaded hl .cancelJob
  | enqueues hl hs ha hj ho =>
    have hq : JobSteps (.start name mode) m _ _ :=
      .enqueueStartJob (.start name mode (ensureUnitLoaded_isSome hl) hs ha hj) ho
    refine (enqueueStartJob ho (loaded hl hq) ?_).append (other rfl)
    exact hn.of_jobs (ensureUnitLoaded_adds hl).jobs

theorem restart {reply : Manager.Reply} (h : m.restart w name = some (reply, out))
    (hu : ∀ n, (out.1.units.get n).isSome → L n) (hn : NextIn L m) : Subjects L out.2 := by
  rcases restart_cases h with ⟨-, rfl⟩ | ⟨-, rfl, -⟩ | ⟨-, cs, hcs, rfl⟩ | ⟨-, reply', h, -⟩
  · exact nil
  · exact nil
  · refine enqueueStop.append (of_none fun c hc ↦ ?_)
    rcases List.mem_cons.mp hc with rfl | hc
    · rfl
    · rcases hcs with rfl | ⟨service, rfl⟩
      · cases hc
      · rw [List.mem_singleton.mp hc]
        rfl
  · exact starts h hu hn

theorem opens {needs ds : List Name} {waiting : List WaitEntry}
    (h : Opens w m id name needs waiting ds out) (hu : L name)
    (hl : ∀ n, (m.units.get n).isSome → L n) : Subjects L out.2 := by
  have start : Subjects L [.maybeStartJob id] := other rfl
  have again {ws ds} : Subjects L [.expandOpen id name needs ws ds] := by
    refine single fun _ hn ↦ ?_
    cases hn
    exact hu
  cases h with
  | finish | missing => exact start
  | skip | pending => exact again
  | new d ds kind _ hd =>
    refine cons (fun _ hn ↦ ?_) again
    cases hn
    exact hl d hd

theorem stopWithMode {mode : JobMode} (hl : ∀ n, (m.units.get n).isSome → L n) :
    Subjects L (m.stopWithMode w name mode).2.2 := by
  unfold Manager.stopWithMode
  split
  · exact nil
  · next hu =>
    have hu : (m.units.get name).isSome := by
      rwa [Bool.not_eq_true', Bool.not_eq_false] at hu
    split
    · exact nil
    · split
      · exact enqueueStop.append (other rfl)
      · split
        · refine cancelJob.append (cons (fun _ hn ↦ ?_) (other rfl))
          cases hn
          exact hl name hu
        · split <;> exact nil

theorem fireTimer {kind : TimerKind} (h : m.fireTimer w name kind = some out)
    (hl : ∀ n, (m.units.get n).isSome → L n) (hn : NextIn L m) : Subjects L out.2 := by
  have self {n} (hu : (m.units.get name).isSome) (h : some name = some n) : L n := by
    cases h
    exact hl name hu
  unfold Manager.fireTimer at h
  split at h
  · cases fireServiceTimer_cases h with
    | ignored => exact nil
    | restart hu _ ho =>
      exact (doStart ho (hl name (by rw [hu]; rfl)) hn).append (other rfl)
    | start msg ha hk => exact single fun _ hn ↦ self (isSome_of_activeOf ha) hn
    | stop ha he => exact ends he (hl name (isSome_of_activeOf ha)) hn
  · next u hu =>
    cases h
    have hu : (m.units.get name).isSome := by
      rw [(Option.filter_eq_some_iff.mp hu).1]
      rfl
    exact (other rfl).append (cons (fun _ hn ↦ self hu hn) (other rfl))

theorem processExit {pid : Pid} {exit : ChildExit} (h : m.processExit w pid exit = some out)
    (hp : ∀ n, m.pidUnit.get pid = some n → L n) (hn : NextIn L m) : Subjects L out.2 := by
  cases processExit_cases h with
  | ignored => exact nil
  | main howner =>
    refine single fun _ hn ↦ ?_
    cases hn
    exact hp _ howner
  | control howner _ _ _ h => exact handleControlExit h (hp _ howner) hn

theorem nowRunning (h : m.nowRunning w name = some out) (hl : ∀ n, (m.units.get n).isSome → L n)
    (hn : NextIn L m) : Subjects L out.2 := by
  rcases nowRunning_ends h with rfl | ⟨ha, he⟩
  · exact nil
  · exact ends he (hl name (isSome_of_activeOf ha)) hn

end Subjects

/-- What a call leaves to be done is about loaded units, if the call itself is. -/
theorem exec_subjects (h : exec w c m = some out) (hs : ∀ n ∈ c.subject, (m.units.get n).isSome)
    (hn : NextIn (fun n ↦ (m.units.get n).isSome) m)
    (hp : ∀ pid n, m.pidUnit.get pid = some n → (m.units.get n).isSome) :
    Subjects (fun n ↦ (out.1.units.get n).isSome) out.2 := by
  cases hc : c.unloads with
  | true =>
    cases c with
    | loadAll =>
      obtain ⟨m', -, rfl⟩ := Option.map_eq_some_iff.mp h
      exact .nil
    | udevRemove => cases h; exact .nil
    | _ => cases hc
  | false =>
  have hl : ∀ n, (m.units.get n).isSome → (out.1.units.get n).isSome := (exec_jobSteps h).loaded hc
  have hs : ∀ n ∈ c.subject, (out.1.units.get n).isSome := fun n hn ↦ hl n (hs n hn)
  have hn : NextIn (fun n ↦ (out.1.units.get n).isSome) m :=
    fun id job n hj hnext ↦ hl n (hn id job n hj hnext)
  have hp : ∀ pid n, m.pidUnit.get pid = some n → (out.1.units.get n).isSome :=
    fun pid n h ↦ hl n (hp pid n h)
  cases c with
  | start name mode =>
    obtain ⟨r, hr, rfl⟩ := Option.map_eq_some_iff.mp h
    exact .starts (startWithMode_cases hr) (fun _ ↦ id) hn
  | startIgnoreDependencies name =>
    cases h
    change Subjects _ (m.startIgnoreDependencies name).2.2
    unfold Manager.startIgnoreDependencies
    split
    · exact .nil
    · split
      · exact .nil
      · exact Subjects.append (.other rfl) (.other rfl)
  | stop name mode => cases h; exact .stopWithMode hl
  | enqueueStop name mode => cases h; exact .enqueueStop
  | revive name =>
    obtain ⟨m', -, rfl⟩ := revive_puts h
    exact .nil
  | restart name =>
    obtain ⟨r, hr, rfl⟩ := Option.map_eq_some_iff.mp h
    exact .restart hr (fun _ ↦ id) hn
  | restartActivated name | tryRestart name =>
    change (if _ then _ else _) = _ at h
    split at h
    · obtain ⟨r, hr, rfl⟩ := Option.map_eq_some_iff.mp h
      exact .restart hr (fun _ ↦ id) hn
    · cases h
      exact .nil
  | restartOrStart name =>
    change (if _ then _ else _) = _ at h
    split at h
    · obtain ⟨r, hr, rfl⟩ := Option.map_eq_some_iff.mp h
      exact .restart hr (fun _ ↦ id) hn
    · obtain ⟨r, hr, rfl⟩ := Option.map_eq_some_iff.mp h
      exact .starts (startWithMode_cases hr) (fun _ ↦ id) hn
  | reload name =>
    change m.reload w name = some out at h
    unfold Manager.reload at h
    split at h
    · cases h
      exact .nil
    · next u hu =>
      split at h
      · have he : Ends w name .restart m out := spawnControl_ends h trivial
        exact .ends he (hl name (by rw [hu]; rfl)) hn
      · cases h
        exact .nil
  | kill name sig =>
    obtain ⟨u, -, h⟩ := Option.bind_eq_some_iff.mp h
    cases h
    exact .nil
  | isolate name =>
    cases h
    refine .of_none fun c hc ↦ ?_
    rcases List.mem_append.mp hc with hc | hc
    · obtain ⟨n, -, rfl⟩ := List.mem_map.mp hc
      rfl
    · rw [List.mem_singleton.mp hc]
      rfl
  | shutdown =>
    cases h
    refine .of_none fun c hc ↦ ?_
    unfold Manager.shutdown at hc
    split at hc
    · cases hc
    · rcases List.mem_append.mp hc with hc | hc
      · obtain ⟨n, -, rfl⟩ := List.mem_map.mp hc
        rfl
      · rw [List.mem_singleton.mp hc]
        rfl
  | resetFailed | loadUnit | udevRegister => cases h; exact .nil
  | tick =>
    cases h
    refine .of_none fun c hc ↦ ?_
    rcases List.mem_append.mp hc with hc | hc
    · obtain ⟨e, -, rfl⟩ := List.mem_map.mp hc
      rfl
    · simp only [List.mem_cons, List.not_mem_nil, or_false] at hc
      rcases hc with rfl | rfl | rfl <;> rfl
  | reap =>
    cases h
    refine .of_none fun c hc ↦ ?_
    obtain ⟨p, -, rfl⟩ := List.mem_map.mp hc
    rfl
  | pollPaths =>
    cases h
    refine .of_none fun c hc ↦ ?_
    rcases pollPaths_calls hc with rfl | ⟨name, rfl⟩ <;> rfl
  | notify ready pid =>
    change m.handleNotify w ready pid = some out at h
    unfold Manager.handleNotify at h
    split at h
    · cases h
      exact .nil
    · split at h
      · exact .nowRunning h hl hn
      · cases h
        exact .nil
  | nameAcquired busName =>
    change m.nameAcquired w busName = some out at h
    unfold Manager.nameAcquired at h
    split at h
    · cases h
      exact .nil
    · exact .nowRunning h hl hn
  | socketReady fd =>
    cases h
    refine .of_none fun c hc ↦ ?_
    obtain ⟨t, -, rfl⟩ := Option.map_eq_some_iff.mp (Option.mem_toList.mp hc)
    rfl
  | enqueueStartJob name => exact .enqueueStartJob h (hs name rfl) hn
  | stopConflict name =>
    rcases stopConflict_cases h with rfl | ⟨-, rfl, -⟩
    · exact .nil
    · exact .enqueueStop
  | stopDependent name =>
    cases h
    rcases stopDependent_cases name with he | ⟨-, -, he⟩
    · rw [he]
      exact .nil
    · rw [he]
      exact .enqueueStop
  | expandOpen id name needs waiting ds => exact .opens (expandOpen_cases h) (hs name rfl) hl
  | maybeStartJob id =>
    obtain ⟨job, hj, ⟨-, rfl⟩ | ⟨-, -, rfl⟩ | ⟨-, -, -, hu, m', hk, h⟩⟩ := maybeStartJob_cases h
    · exact .finishJobFailed
    · exact .nil
    · rcases h with ⟨msg, rfl⟩ | h
      · exact .finishJobFailed
      · refine .doStart h (hl _ hu) (NextIn.of_jobs ?_ hk.jobs)
        exact hn.modifyJob fun _ ↦ rfl
  | maybeStopJob id =>
    obtain ⟨job, hj, ⟨-, rfl⟩ | ⟨-, -, rfl⟩ | ⟨ho, -, h⟩⟩ := maybeStopJob_cases h
    · exact .finishJob hn
    · exact .nil
    · obtain ⟨u, hu, -⟩ := (Option.any_eq_true ..).mp ho
      refine .doStop h (hl _ (by rw [hu]; rfl)) ?_
      exact NextIn.modifyJob (m := { m with unitJob := m.unitJob.insert job.unit id }) hn fun _ ↦ rfl
  | processJobs => cases h; exact .other rfl
  | processPass ids changed =>
    cases h
    unfold Manager.processPass
    split
    · refine .of_none fun c hc ↦ ?_
      split at hc
      · rw [List.mem_singleton.mp hc]
        rfl
      · cases hc
    · exact Subjects.tryAdvanceJob.append (.other rfl)
  | jobCompleted id unit ok => cases h; exact .jobCompleted
  | pokeFailedJob id name => cases h; exact .pokeFailedJob
  | failUnit name msg => exact .failUnit h (hs name rfl)
  | fireOnFailure name =>
    obtain ⟨u, -, h⟩ := Option.bind_eq_some_iff.mp h
    cases h
    refine Subjects.append (.of_none fun c hc ↦ ?_) (.other rfl)
    obtain ⟨n, -, rfl⟩ := List.mem_map.mp hc
    rfl
  | armStartTimeout name =>
    obtain ⟨u, -, h⟩ := Option.map_eq_some_iff.mp h
    cases h
    exact .nil
  | timerDepCheck =>
    obtain ⟨m', -, rfl⟩ := Option.map_eq_some_iff.mp h
    exact .nil
  | fireTimer name kind => exact .fireTimer h hl hn
  | rearmTimer name =>
    obtain ⟨m', -, rfl⟩ := Option.map_eq_some_iff.mp h
    exact .nil
  | processExit pid exit => exact .processExit h (hp pid) hn
  | mainExit name exit => exact .mainExit h (hs name rfl) hn
  | loadAll | udevRemove => cases hc

end Rystemd
