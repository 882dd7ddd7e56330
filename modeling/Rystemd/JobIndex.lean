import Rystemd.Library.Index
import Rystemd.Cases

namespace Rystemd

/-- What holds of the job table whatever is asked of the manager. -/
structure Sound (m : Manager) : Prop where
  points : Index.Points Job.unit m.jobs m.unitJob
  fresh : ∀ id job, m.jobs.get id = some job → id ≤ m.nextJob
  kinds : ∀ id job, m.jobs.get id = some job → job.kind ≠ .restart
  restartOk : ∀ n, ∀ u ∈ m.units.get n, u.RestartOk

/-- No id is used twice, and no job changes its unit or its kind. -/
structure Evolves (m m' : Manager) : Prop where
  nextJob : m.nextJob ≤ m'.nextJob
  jobs : ∀ id job', id ≤ m.nextJob → m'.jobs.get id = some job' →
    ∃ job, m.jobs.get id = some job ∧ job.unit = job'.unit ∧ job.kind = job'.kind

/-- A queued call names a job of the right kind, if the job is still there. -/
def CallOk (m : Manager) : Call → Prop
  | .maybeStartJob id => id ≤ m.nextJob ∧ ∀ job, m.jobs.get id = some job → job.kind = .start
  | .maybeStopJob id => id ≤ m.nextJob ∧ ∀ job, m.jobs.get id = some job → job.kind = .stop
  | .expandOpen id name _ _ _ =>
    id ≤ m.nextJob ∧ ∀ job, m.jobs.get id = some job → job.unit = name ∧ job.kind = .start
  | _ => True

/-- What a procedure does to a sound job table. -/
structure Fine (m : Manager) (out : Out) : Prop where
  sound : Sound out.1
  evolves : Evolves m out.1
  calls : ∀ c ∈ out.2, CallOk out.1 c

variable {w : World} {m m' m'' : Manager} {name : Name} {out : Out} {id : JobId} {job : Job}
  {kind : JobKind} {cs : List Call}

namespace Evolves

theorem refl : Evolves m m := ⟨le_rfl, fun _ job' _ h ↦ ⟨job', h, rfl, rfl⟩⟩

theorem trans (h : Evolves m m') (h' : Evolves m' m'') : Evolves m m'' where
  nextJob := h.nextJob.trans h'.nextJob
  jobs id job'' hid hj := by
    obtain ⟨job', hj', hu', hk'⟩ := h'.jobs id job'' (hid.trans h.nextJob) hj
    obtain ⟨job, hj, hu, hk⟩ := h.jobs id job' hid hj'
    exact ⟨job, hj, hu.trans hu', hk.trans hk'⟩

theorem callOk (h : Evolves m m') {c : Call} (hc : CallOk m c) : CallOk m' c := by
  cases c with
  | maybeStartJob id =>
    refine ⟨hc.1.trans h.nextJob, fun job' hj' ↦ ?_⟩
    obtain ⟨job, hj, -, hk⟩ := h.jobs id job' hc.1 hj'
    rw [← hk, hc.2 job hj]
  | maybeStopJob id =>
    refine ⟨hc.1.trans h.nextJob, fun job' hj' ↦ ?_⟩
    obtain ⟨job, hj, -, hk⟩ := h.jobs id job' hc.1 hj'
    rw [← hk, hc.2 job hj]
  | expandOpen id name _ _ _ =>
    refine ⟨hc.1.trans h.nextJob, fun job' hj' ↦ ?_⟩
    obtain ⟨job, hj, hu, hk⟩ := h.jobs id job' hc.1 hj'
    rw [← hu, ← hk]
    exact hc.2 job hj
  | _ => trivial

theorem of_eq (hj : m'.jobs = m.jobs) (hn : m'.nextJob = m.nextJob) : Evolves m m' :=
  ⟨hn.ge, fun _ job' _ h ↦ ⟨job', by rwa [hj] at h, rfl, rfl⟩⟩

end Evolves

namespace Fine

theorem refl (hm : Sound m) : Fine m (m, []) := ⟨hm, .refl, nofun⟩

theorem trans (h : Fine m (m', [])) (h' : Sound m' → Fine m' out) : Fine m out :=
  let h'' := h' h.sound
  ⟨h''.sound, h.evolves.trans h''.evolves, h''.calls⟩

theorem append (h : Fine m out) (hc : ∀ c ∈ cs, CallOk out.1 c) : Fine m (out.1, out.2 ++ cs) :=
  ⟨h.sound, h.evolves, fun c hmem ↦ (List.mem_append.mp hmem).elim (h.calls c) (hc c)⟩

theorem queue (h : Fine m (m', [])) (hc : ∀ c ∈ cs, CallOk m' c) : Fine m (m', cs) :=
  ⟨h.sound, h.evolves, hc⟩

theorem local_ (hm : Sound m) (h : Local name m m') : Fine m (m', []) where
  sound :=
    { points := by rw [h.jobs, h.unitJob]; exact hm.points
      fresh := by rw [h.jobs, h.nextJob]; exact hm.fresh
      kinds := by rw [h.jobs]; exact hm.kinds
      restartOk := fun n ↦ by
        by_cases hn : n = name
        · subst hn; exact h.restartOk (hm.restartOk n)
        · rw [h.others n hn]; exact hm.restartOk n }
  evolves := .of_eq h.jobs h.nextJob
  calls := nofun

theorem quiet (hm : Sound m) (h : Quiet m m') : Fine m (m', []) where
  sound :=
    { points := by rw [h.jobs, h.unitJob]; exact hm.points
      fresh := by rw [h.jobs, h.nextJob]; exact hm.fresh
      kinds := by rw [h.jobs]; exact hm.kinds
      restartOk := fun n u' hu' hs ↦ by
        have hn := h.units n
        rw [Option.mem_def.mp hu'] at hn
        obtain ⟨u, hu, hcore⟩ := Option.map_eq_some_iff.mp hn.symm
        have hsub : u.core.sub = u'.core.sub := by rw [hcore]
        have hactive : u.core.active = u'.core.active := by rw [hcore]
        exact hactive.symm.trans (hm.restartOk n u hu (hsub.trans hs)) }
  evolves := .of_eq h.jobs h.nextJob
  calls := nofun

theorem newJob (hm : Sound m) (kind : JobKind) (name : Name) (mode : JobMode) (next : Option Name)
    (hk : kind ≠ .restart) : Fine m ((m.newJob kind name mode next).2, []) where
  sound :=
    { points := by
        have hid : m.jobs.get (m.nextJob + 1) = none := by
          cases h : m.jobs.get (m.nextJob + 1) with
          | none => rfl
          | some job => exact absurd (hm.fresh _ job h) (Nat.not_succ_le_self _)
        exact Index.Points.insert (v := { unit := name, kind, mode, startAfterStop := next })
          hm.points hid
      fresh := fun id job h ↦ by
        simp only [Manager.newJob, Table.get_insert] at h ⊢
        split at h
        · next hid => exact hid.le
        · exact (hm.fresh id job h).trans (Nat.le_succ _)
      kinds := fun id job h ↦ by
        simp only [Manager.newJob, Table.get_insert] at h
        split at h
        · cases h; exact hk
        · exact hm.kinds id job h
      restartOk := hm.restartOk }
  evolves :=
    { nextJob := Nat.le_succ _
      jobs := fun id job' hid h ↦ by
        simp only [Manager.newJob, Table.get_insert] at h
        rw [if_neg (Nat.lt_succ_of_le hid).ne] at h
        exact ⟨job', h, rfl, rfl⟩ }
  calls := nofun

theorem modifyJob (hm : Sound m) {f : Job → Job} (hf : ∀ j, (f j).unit = j.unit ∧ (f j).kind = j.kind) :
    Fine m (m.modifyJob id f, []) := by
  have hget : ∀ id' job', (m.modifyJob id f).jobs.get id' = some job' →
      ∃ job, m.jobs.get id' = some job ∧ job.unit = job'.unit ∧ job.kind = job'.kind := by
    intro id' job' h
    rw [Manager.modifyJob, Table.get_modify] at h
    split at h
    · obtain ⟨job, hj, rfl⟩ := Option.map_eq_some_iff.mp h
      exact ⟨job, hj, (hf job).1.symm, (hf job).2.symm⟩
    · exact ⟨job', h, rfl, rfl⟩
  refine ⟨⟨hm.points.modify fun j ↦ (hf j).1, fun id' job' h ↦ ?_, fun id' job' h ↦ ?_, hm.restartOk⟩,
    ⟨le_rfl, fun id' job' _ h ↦ hget id' job' h⟩, nofun⟩
  · obtain ⟨job, hj, -, -⟩ := hget id' job' h
    exact hm.fresh id' job hj
  · obtain ⟨job, hj, -, hk⟩ := hget id' job' h
    rw [← hk]
    exact hm.kinds id' job hj

theorem removeJob (hm : Sound m) (hj : m.jobs.get id = some job) {ok : Bool} {error : Option String} :
    Fine m ((m.recordJobResult id ok error).removeJob id job.unit, []) := by
  have hget : ∀ id' job', (m.jobs.remove id).get id' = some job' → m.jobs.get id' = some job' := by
    intro id' job' h
    rw [Table.get_remove] at h
    split at h
    · cases h
    · exact h
  exact ⟨⟨hm.points.remove hj, fun id' job' h ↦ hm.fresh id' job' (hget id' job' h),
    fun id' job' h ↦ hm.kinds id' job' (hget id' job' h), hm.restartOk⟩,
    ⟨le_rfl, fun id' job' _ h ↦ ⟨job', hget id' job' h, rfl, rfl⟩⟩, nofun⟩

/-- Forgetting the job of a unit, in the table and in the index. -/
theorem eraseJob (hm : Sound m) (hx : m.unitJob.get name = some id) :
    Fine m ({ m with unitJob := m.unitJob.remove name, jobs := m.jobs.remove id }, []) := by
  have hget : ∀ id' job', (m.jobs.remove id).get id' = some job' → m.jobs.get id' = some job' := by
    intro id' job' h
    rw [Table.get_remove] at h
    split at h
    · cases h
    · exact h
  exact ⟨⟨hm.points.erase hx, fun id' job' h ↦ hm.fresh id' job' (hget id' job' h),
    fun id' job' h ↦ hm.kinds id' job' (hget id' job' h), hm.restartOk⟩,
    ⟨le_rfl, fun id' job' _ h ↦ ⟨job', hget id' job' h, rfl, rfl⟩⟩, nofun⟩

theorem mapJobs (hm : Sound m) {f : Job → Job} (hf : ∀ j, (f j).unit = j.unit ∧ (f j).kind = j.kind) :
    Fine m ({ m with jobs := m.jobs.mapValues f }, []) := by
  have hget : ∀ id' job', (m.jobs.mapValues f).get id' = some job' →
      ∃ job, m.jobs.get id' = some job ∧ job.unit = job'.unit ∧ job.kind = job'.kind := by
    intro id' job' h
    rw [Table.get_mapValues] at h
    obtain ⟨job, hj, rfl⟩ := Option.map_eq_some_iff.mp h
    exact ⟨job, hj, (hf job).1.symm, (hf job).2.symm⟩
  refine ⟨⟨hm.points.mapValues fun j ↦ (hf j).1, fun id' job' h ↦ ?_, fun id' job' h ↦ ?_,
    hm.restartOk⟩, ⟨le_rfl, fun id' job' _ h ↦ hget id' job' h⟩, nofun⟩
  · obtain ⟨job, hj, -, -⟩ := hget id' job' h
    exact hm.fresh id' job hj
  · obtain ⟨job, hj, -, hk⟩ := hget id' job' h
    rw [← hk]
    exact hm.kinds id' job hj

theorem reindex (hm : Sound m) (hj : m.jobs.get id = some job) :
    Fine m ({ m with unitJob := m.unitJob.insert job.unit id }, []) :=
  ⟨⟨hm.points.reindex hj, hm.fresh, hm.kinds, hm.restartOk⟩, .of_eq rfl rfl, nofun⟩

/-- Other units may come, each in order. -/
theorem units (hm : Sound m) (hj : m'.jobs = m.jobs) (hx : m'.unitJob = m.unitJob)
    (hn : m'.nextJob = m.nextJob) (h : ∀ n, ∀ u ∈ m'.units.get n, u.RestartOk) :
    Fine m (m', []) where
  sound :=
    { points := by rw [hj, hx]; exact hm.points
      fresh := by rw [hj, hn]; exact hm.fresh
      kinds := by rw [hj]; exact hm.kinds
      restartOk := h }
  evolves := .of_eq hj hn
  calls := nofun

end Fine

theorem onJobCompleted_ok {unit : Name} {ok : Bool} : ∀ c ∈ m.onJobCompleted w unit ok, CallOk m' c := by
  intro c hc
  obtain ⟨id, -, rfl⟩ := List.mem_map.mp hc
  trivial

theorem pokeFailed_ok : ∀ c ∈ m.pokeFailed w name, CallOk m' c := by
  intro c hc
  obtain ⟨id, -, rfl⟩ := List.mem_map.mp hc
  trivial

theorem finishJob_fine (hm : Sound m) : Fine m (m.finishJob w id) := by
  unfold Manager.finishJob
  split
  · exact .refl hm
  · next job hj =>
    refine ((Fine.removeJob hm hj).queue onJobCompleted_ok).append fun c hc ↦ ?_
    split at hc
    · obtain ⟨next, -, rfl⟩ := List.mem_map.mp hc
      trivial
    · cases hc

theorem finishJobFailed_fine (hm : Sound m) : Fine m (m.finishJobFailed w id) := by
  unfold Manager.finishJobFailed
  split
  · exact .refl hm
  · next job hj => exact (Fine.removeJob hm hj).queue onJobCompleted_ok

theorem cancelJob_fine {msg : String} (hm : Sound m) : Fine m (m.cancelJob w id msg) := by
  unfold Manager.cancelJob
  split
  · exact .refl hm
  · next job hj => exact (Fine.removeJob hm hj).queue onJobCompleted_ok

theorem tryAdvanceJob_fine (hm : Sound m) : Fine m (m.tryAdvanceJob w id).2 := by
  unfold Manager.tryAdvanceJob
  split
  · exact .refl hm
  · next job hj =>
    have hid {k : JobKind} (hk : job.kind = k) :
        id ≤ m.nextJob ∧ ∀ job', m.jobs.get id = some job' → job'.kind = k := by
      refine ⟨hm.fresh id job hj, fun job' hj' ↦ ?_⟩
      rw [hj] at hj'
      cases hj'
      exact hk
    split
    · next hk =>
      split
      · exact .refl hm
      · split
        · exact finishJobFailed_fine hm
        · split
          · exact (Fine.refl hm).queue fun c hc ↦ by cases List.mem_singleton.mp hc; exact hid hk
          · exact .refl hm
    · next hk =>
      split
      · exact (Fine.refl hm).queue fun c hc ↦ by cases List.mem_singleton.mp hc; exact hid hk
      · exact .refl hm
    · exact .refl hm

theorem releaseWait_fine (hm : Sound m) : Fine m (m.releaseWait w id job name) := by
  have h : Fine m (m.modifyJob id (Manager.withoutWait name), []) := .modifyJob hm fun _ ↦ ⟨rfl, rfl⟩
  unfold Manager.releaseWait
  dsimp only
  split
  · exact h
  · exact h.trans tryAdvanceJob_fine

theorem jobCompleted_fine {ok : Bool} (hm : Sound m) : Fine m (m.jobCompleted w id name ok) := by
  unfold Manager.jobCompleted
  split
  · exact .refl hm
  · split
    · exact .modifyJob hm fun _ ↦ ⟨rfl, rfl⟩
    · exact releaseWait_fine hm

theorem pokeFailedJob_fine (hm : Sound m) : Fine m (m.pokeFailedJob w id name) := by
  unfold Manager.pokeFailedJob
  split
  · exact .refl hm
  · split
    · refine Fine.trans ?_ finishJobFailed_fine
      exact .modifyJob hm fun _ ↦ ⟨rfl, rfl⟩
    · exact releaseWait_fine hm

theorem completeJob_fine {kinds : JobKind → Bool} (hm : Sound m)
    (h : m.completeJob w name kinds = some out) : Fine m out := by
  rcases completeJob_cases h with ⟨-, rfl⟩ | ⟨_, _, -, -, ⟨-, rfl⟩ | ⟨-, rfl⟩⟩
  · exact (Fine.refl hm).queue (by simp [CallOk])
  · exact (finishJob_fine hm).append (by simp [CallOk])
  · exact (Fine.refl hm).queue (by simp [CallOk])

theorem Ends.fine (hm : Sound m) (h : Ends w name kind m out) : Fine m out := by
  induction h with
  | waits hk => exact .local_ hm hk.toLocal
  | fails msg rest hk hr =>
    refine (Fine.local_ hm hk.toLocal).queue ?_
    rcases hr with rfl | rfl <;> simp [CallOk]
  | completes hp _ ho _ => exact (Fine.local_ hm hp.toLocal).trans fun h' ↦ completeJob_fine h' ho
  | stops hp ho => exact (Fine.local_ hm hp.toLocal).trans fun h' ↦ completeJob_fine h' ho
  | spawns idx main hk _ _ _ _ _ _ ih => exact (Fine.local_ hm (hk.toLocal.trans .recordSpawn)).trans ih

theorem ActiveExit.fine (hm : Sound m) (h : ActiveExit w name m out) : Fine m out := by
  cases h with
  | limit hp => exact (Fine.local_ hm hp.toLocal).queue pokeFailed_ok
  | restart delay hk _ => exact .local_ hm (hk.toLocal.trans scheduleRestart_local)
  | ended hp _ ho =>
    exact ((Fine.local_ hm hp.toLocal).trans fun h' ↦ completeJob_fine h' ho).append
      (by simp [CallOk])
  | failed hp => exact ((Fine.local_ hm hp.toLocal).queue pokeFailed_ok).append (by simp [CallOk])

theorem mainExit_fine {exit : ChildExit} (hm : Sound m) (h : m.mainExit w name exit = some out) :
    Fine m out := by
  obtain ⟨u, -, h⟩ := mainExit_ends h
  have hf : Fine m (m.forgetMain name, []) := .local_ hm Touches.forgetMain.toLocal
  refine hf.trans fun hm ↦ ?_
  cases h with
  | stopped _ he => exact he.fine hm
  | vanished _ _ hp => exact .local_ hm hp.toLocal
  | fails _ hk => exact (Fine.local_ hm hk.toLocal).queue (by simp [CallOk])
  | active _ _ he => exact he.fine hm

theorem failUnit_fine {msg : String} (hm : Sound m) (h : m.failUnit w name msg = some out) :
    Fine m out := by
  obtain ⟨m', hp, ⟨jid, job, -, -, -, rfl⟩ | ⟨-, rfl⟩⟩ := failUnit_ends h
  · refine Fine.append ((Fine.local_ hm hp.toLocal).trans fun h' ↦ ?_) (by simp [CallOk])
    refine Fine.trans ?_ finishJobFailed_fine
    exact .modifyJob h' fun _ ↦ ⟨rfl, rfl⟩
  · exact ((Fine.local_ hm hp.toLocal).queue pokeFailed_ok).append (by simp [CallOk])

theorem handleControlExit_fine {exit : ChildExit} (hm : Sound m)
    (h : m.handleControlExit w name exit = some out) : Fine m out := by
  have hf : Fine m (m.forgetControl name, []) := .local_ hm Touches.forgetControl.toLocal
  rcases handleControlExit_cases h with ⟨-, he⟩ | ⟨-, m', rfl | ⟨pid, rfl⟩, he⟩ | ⟨-, rfl⟩ | rfl
  · exact hf.trans fun hm ↦ he.fine hm
  · exact hf.trans fun hm ↦ he.fine hm
  · exact hf.trans fun hm ↦ (Fine.local_ hm .adoptPid).trans fun hm ↦ he.fine hm
  · exact hf.queue (by simp [CallOk])
  · exact hf

theorem doStart_fine (hm : Sound m) (h : m.doStart w name = some out) : Fine m out := by
  obtain ⟨m', hl, -, he⟩ := (doStart_begins h).ends
  exact (Fine.local_ hm hl.toLocal).trans fun h' ↦ he.fine h'

theorem doStop_fine (hm : Sound m) (h : m.doStop w name = some out) : Fine m out := by
  obtain ⟨m', hp, he⟩ := doStop_begins h
  exact (Fine.local_ hm hp.toLocal).trans fun h' ↦ he.fine h'

theorem setFailed_fine (hm : Sound m) (id : JobId) (msg : String) : Fine m (m.setFailed id msg, []) :=
  .modifyJob hm fun _ ↦ ⟨rfl, rfl⟩

theorem maybeStartJob_fine (hm : Sound m) (h : m.maybeStartJob w id = some out) : Fine m out := by
  obtain ⟨job, hj, ⟨-, rfl⟩ | ⟨-, -, rfl⟩ | ⟨-, -, -, -, m', hk, h⟩⟩ := maybeStartJob_cases h
  · exact finishJobFailed_fine hm
  · exact .refl hm
  · have h₁ : Fine m (m.markStarted id, []) := .modifyJob hm fun _ ↦ ⟨rfl, rfl⟩
    refine (h₁.trans fun hm' ↦ .local_ hm' hk.toLocal).trans fun hm' ↦ ?_
    rcases h with ⟨msg, rfl⟩ | h
    · exact (setFailed_fine hm' id msg).trans finishJobFailed_fine
    · exact doStart_fine hm' h

theorem maybeStopJob_fine (hm : Sound m) (h : m.maybeStopJob w id = some out) : Fine m out := by
  obtain ⟨job, hj, ⟨-, rfl⟩ | ⟨-, -, rfl⟩ | ⟨-, -, h⟩⟩ := maybeStopJob_cases h
  · exact finishJob_fine hm
  · exact .refl hm
  · refine (Fine.reindex hm hj).trans fun hm' ↦ Fine.trans ?_ fun hm'' ↦ doStop_fine hm'' h
    exact .modifyJob hm' fun _ ↦ ⟨rfl, rfl⟩

/-- The calls about a start job that is in the table. -/
theorem callOk_start (hj : ∀ job, m.jobs.get id = some job →
    job.unit = name ∧ job.kind = .start) (hid : id ≤ m.nextJob) :
    CallOk m (.maybeStartJob id) ∧
      ∀ needs waiting ds, CallOk m (.expandOpen id name needs waiting ds) :=
  ⟨⟨hid, fun job h ↦ (hj job h).2⟩, fun _ _ _ ↦ ⟨hid, fun job h ↦ hj job h⟩⟩

theorem Expands.fine (hm : Sound m) (hj : ∀ job, m.jobs.get id = some job →
    job.unit = name ∧ job.kind = .start) (hid : id ≤ m.nextJob)
    (h : Expands w m id name out) : Fine m out := by
  obtain ⟨hs, ho⟩ := callOk_start hj hid
  have he : Fine m (m.markExpanding id, []) := .modifyJob hm fun _ ↦ ⟨rfl, rfl⟩
  cases h with
  | missing msg _ =>
    have h := setFailed_fine hm id msg
    exact h.queue fun c hc ↦ by cases List.mem_singleton.mp hc; exact h.evolves.callOk hs
  | asserted msg => exact (Fine.local_ hm Keeps.setResult.toLocal).queue (by simp [CallOk])
  | skipped => exact finishJob_fine hm
  | requisite msg =>
    have h := he.trans fun hm' ↦ setFailed_fine hm' id msg
    exact h.queue fun c hc ↦ by cases List.mem_singleton.mp hc; exact h.evolves.callOk hs
  | opens waiting _ =>
    refine he.queue fun c hc ↦ ?_
    rcases List.mem_append.mp hc with hc | hc
    · obtain ⟨d, -, rfl⟩ := List.mem_map.mp hc
      trivial
    · cases List.mem_singleton.mp hc
      exact he.evolves.callOk (ho ..)

theorem newJob_get {mode : JobMode} {next : Option Name} {job : Job}
    (h : (m.newJob kind name mode next).2.jobs.get (m.newJob kind name mode next).1 = some job) :
    job.unit = name ∧ job.kind = kind := by
  rw [Manager.newJob, Table.get_insert_self] at h
  cases h
  exact ⟨rfl, rfl⟩

theorem enqueueStartJobMode_fine {mode : JobMode} (hm : Sound m)
    (h : m.enqueueStartJobMode w name mode = some out) : Fine m out :=
  (Fine.newJob hm .start name mode none nofun).trans fun hm' ↦
    (expandStartJob_cases h).fine hm' (fun _ ↦ newJob_get) le_rfl

theorem enqueueStopJobAfterMode_fine {mode : JobMode} {next : Option Name} (hm : Sound m) :
    Fine m (m.enqueueStopJobAfterMode w name next mode) := by
  refine (Fine.newJob hm .stop name mode next nofun).queue fun c hc ↦ ?_
  rcases List.mem_append.mp hc with hc | hc
  · obtain ⟨d, -, rfl⟩ := List.mem_map.mp hc
    trivial
  · cases List.mem_singleton.mp hc
    exact ⟨le_rfl, fun job hj ↦ (newJob_get hj).2⟩

theorem Opens.fine {needs ds : List Name} {waiting : List WaitEntry} (hm : Sound m)
    (hc : CallOk m (.expandOpen id name needs waiting ds))
    (h : Opens w m id name needs waiting ds out) : Fine m out := by
  obtain ⟨hs, ho⟩ := callOk_start hc.2 hc.1
  cases h with
  | finish u after before _ _ _ =>
    have h : Fine m (m.commitWaiting id before, []) := .modifyJob hm fun _ ↦ by split <;> exact ⟨rfl, rfl⟩
    exact h.queue fun c hc ↦ by cases List.mem_singleton.mp hc; exact h.evolves.callOk hs
  | skip => exact (Fine.refl hm).queue fun c hc ↦ by cases List.mem_singleton.mp hc; exact ho ..
  | missing d ds msg =>
    have h := setFailed_fine hm id msg
    exact h.queue fun c hc ↦ by cases List.mem_singleton.mp hc; exact h.evolves.callOk hs
  | pending => exact (Fine.refl hm).queue fun c hc ↦ by cases List.mem_singleton.mp hc; exact ho ..
  | new d ds =>
    refine (Fine.refl hm).queue fun c hc ↦ ?_
    rcases List.mem_cons.mp hc with rfl | hc
    · trivial
    · cases List.mem_singleton.mp hc
      exact ho ..

theorem Adds.fine (hm : Sound m) (h : Adds m m') : Fine m (m', []) where
  sound :=
    { points := by rw [h.jobs, h.unitJob]; exact hm.points
      fresh := by rw [h.jobs, h.nextJob]; exact hm.fresh
      kinds := by rw [h.jobs]; exact hm.kinds
      restartOk := fun n u hu ↦ by
        cases hn : m.units.get n with
        | none => exact (h.units.added n u hn hu).restartOk
        | some v =>
          have hv := h.units.kept n v hn
          rw [Option.mem_def.mp hu] at hv
          cases hv
          exact hm.restartOk n u hn }
  evolves := .of_eq h.jobs h.nextJob
  calls := nofun

theorem Starts.fine {mode : JobMode} {reply : Manager.StartReply} (hm : Sound m)
    (h : Starts w m name mode reply out) : Fine m out := by
  cases h with
  | unloadable e => exact .refl hm
  | shutdown hl _ => exact (ensureUnitLoaded_adds hl).fine hm
  | active hl _ => exact (ensureUnitLoaded_adds hl).fine hm
  | pending hl _ _ => exact (ensureUnitLoaded_adds hl).fine hm
  | irreversible e hl => exact (ensureUnitLoaded_adds hl).fine hm
  | cancels msg hl _ _ _ _ =>
    exact ((ensureUnitLoaded_adds hl).fine hm).trans fun hm' ↦
      (cancelJob_fine hm').append (by simp [CallOk])
  | enqueues hl _ _ _ ho =>
    exact ((ensureUnitLoaded_adds hl).fine hm).trans fun hm' ↦
      (enqueueStartJobMode_fine hm' ho).append (by simp [CallOk])

theorem dropStartJob_fine (hm : Sound m) : Fine m (m.dropStartJob name, []) := by
  unfold Manager.dropStartJob
  split
  · exact .refl hm
  · next hj =>
    split
    · exact .eraseJob hm (jobOf_eq hj).1
    · exact .refl hm

theorem dropJob_fine (hm : Sound m) : Fine m (m.dropJob name, []) := by
  unfold Manager.dropJob
  split
  · exact .refl hm
  · next jid hx =>
    exact (Fine.eraseJob hm hx).trans fun hm' ↦ .mapJobs hm' fun _ ↦ ⟨rfl, rfl⟩

theorem restart_fine {reply : Manager.Reply} (hm : Sound m)
    (h : m.restart w name = some (reply, out)) : Fine m out := by
  rcases restart_cases h with ⟨-, rfl⟩ | ⟨-, rfl, -⟩ | ⟨-, cs, hcs, rfl⟩ | ⟨-, reply', h, -⟩
  · exact .refl hm
  · exact .refl hm
  · refine (dropStartJob_fine hm).trans fun hm' ↦ (enqueueStopJobAfterMode_fine hm').append ?_
    rcases hcs with rfl | ⟨service, rfl⟩ <;> simp [CallOk]
  · exact h.fine hm

theorem stopWithMode_fine {mode : JobMode} (hm : Sound m) :
    Fine m (m.stopWithMode w name mode).2 := by
  unfold Manager.stopWithMode
  split
  · exact .refl hm
  · split
    · exact .refl hm
    · split
      · exact (enqueueStopJobAfterMode_fine hm).append (by simp [CallOk])
      · split
        · exact (cancelJob_fine hm).append (by simp [CallOk])
        · split
          · exact .modifyJob hm fun _ ↦ ⟨rfl, rfl⟩
          · exact .refl hm

theorem startIgnoreDependencies_fine (hm : Sound m) : Fine m (m.startIgnoreDependencies name).2 := by
  unfold Manager.startIgnoreDependencies
  split
  · exact .refl hm
  · split
    · exact .refl hm
    · refine ((dropJob_fine hm).trans fun hm' ↦ .newJob hm' .start name .replace none (by simp)).queue
        fun c hc ↦ ?_
      rcases List.mem_cons.mp hc with rfl | hc
      · exact ⟨le_rfl, fun job hj ↦ (newJob_get hj).2⟩
      · cases List.mem_singleton.mp hc
        trivial

theorem fireTimer_fine {kind : TimerKind} (hm : Sound m) (h : m.fireTimer w name kind = some out) :
    Fine m out := by
  rcases fireTimer_cases h with h | ⟨m', target, hq, rfl⟩
  · cases h with
    | ignored => exact .refl hm
    | restart _ _ ho => exact (doStart_fine hm ho).append (by simp [CallOk])
    | start msg _ hk => exact (Fine.local_ hm hk.toLocal).queue (by simp [CallOk])
    | stop _ he => exact he.fine hm
  · exact (Fine.quiet hm hq).queue (by simp [CallOk])

theorem processExit_fine {pid : Pid} {exit : ChildExit} (hm : Sound m)
    (h : m.processExit w pid exit = some out) : Fine m out := by
  have hq : Fine m (m.forgetPid pid, []) := .quiet hm .forgetPid
  cases processExit_cases h with
  | ignored => exact hq
  | main => exact hq.queue (by simp [CallOk])
  | control _ _ _ _ h => exact hq.trans fun hm' ↦ handleControlExit_fine hm' h

theorem udevRemove_restartOk {device : Device} {n : Name} (hm : ∀ u ∈ m.units.get n, u.RestartOk) :
    ∀ u ∈ (m.udevRemove device).units.get n, u.RestartOk :=
  fun u hu ↦ hm u (udevRemove_get hu)

theorem loadAll_fine (hm : Sound m) (h : m.loadAll w = some m') : Fine m (m', []) := by
  obtain ⟨m₁, ha, hq, -⟩ := loadAll_cases h
  have h₀ : Fine m ({ m with units := m.reloadUnits w }, []) :=
    .units hm rfl rfl rfl fun n u hu ↦ reloadUnit_restartOk (hm.restartOk n) (reloadUnits_get hu)
  exact h₀.trans fun h₁ ↦ (ha.fine h₁).trans fun h₂ ↦ .quiet h₂ hq

theorem processPass_fine {ids : List JobId} {changed : Bool} (hm : Sound m) :
    Fine m (m.processPass w ids changed) := by
  unfold Manager.processPass
  split
  · refine (Fine.refl hm).queue ?_
    split <;> simp [CallOk]
  · exact (tryAdvanceJob_fine hm).append (by simp [CallOk])

theorem pollPaths_ok : ∀ c ∈ (m.pollPaths w).2, CallOk m' c := by
  intro c hc
  rcases pollPaths_calls hc with rfl | ⟨name, rfl⟩ <;> trivial

/-- What every call keeps. -/
theorem exec_fine {c : Call} (hm : Sound m) (hc : CallOk m c) (h : exec w c m = some out) :
    Fine m out := by
  cases c with
  | start name mode =>
    obtain ⟨r, hr, rfl⟩ := Option.map_eq_some_iff.mp h
    exact (startWithMode_cases hr).fine hm
  | startIgnoreDependencies name => cases h; exact startIgnoreDependencies_fine hm
  | stop name mode => cases h; exact stopWithMode_fine hm
  | enqueueStop name mode => cases h; exact enqueueStopJobAfterMode_fine hm
  | revive name =>
    obtain ⟨m', hp, rfl⟩ := revive_puts h
    exact .local_ hm hp.toLocal
  | restart name =>
    obtain ⟨r, hr, rfl⟩ := Option.map_eq_some_iff.mp h
    exact restart_fine hm hr
  | restartActivated name | tryRestart name =>
    change (if _ then _ else _) = _ at h
    split at h
    · obtain ⟨r, hr, rfl⟩ := Option.map_eq_some_iff.mp h
      exact restart_fine hm hr
    · cases h; exact .refl hm
  | restartOrStart name =>
    change (if _ then _ else _) = _ at h
    split at h
    · obtain ⟨r, hr, rfl⟩ := Option.map_eq_some_iff.mp h
      exact restart_fine hm hr
    · obtain ⟨r, hr, rfl⟩ := Option.map_eq_some_iff.mp h
      exact (startWithMode_cases hr).fine hm
  | reload name => exact (reload_ends h .start).fine hm
  | kill name sig =>
    obtain ⟨u, -, h⟩ := Option.bind_eq_some_iff.mp h
    cases h
    refine .quiet hm ?_
    split
    · exact .of_eq rfl rfl rfl rfl rfl rfl
    · exact .refl
  | isolate name =>
    cases h
    refine (Fine.refl hm).queue fun c hc ↦ ?_
    rcases List.mem_append.mp hc with hc | hc
    · obtain ⟨n, -, rfl⟩ := List.mem_map.mp hc
      trivial
    · cases List.mem_singleton.mp hc
      trivial
  | resetFailed name =>
    cases h
    rcases (resetFailed_cases : m.resetFailed name = m ∨ _) with he | ⟨-, hp⟩
    · rw [he]; exact .refl hm
    · exact .local_ hm hp.toLocal
  | shutdown =>
    cases h
    unfold Manager.shutdown
    split
    · exact .refl hm
    · refine Fine.queue ?_ fun c hc ↦ ?_
      · exact .units hm rfl rfl rfl hm.restartOk
      · rcases List.mem_append.mp hc with hc | hc
        · obtain ⟨n, -, rfl⟩ := List.mem_map.mp hc
          trivial
        · cases List.mem_singleton.mp hc
          trivial
  | loadAll =>
    obtain ⟨m', hm', rfl⟩ := Option.map_eq_some_iff.mp h
    exact loadAll_fine hm hm'
  | loadUnit name => cases h; exact busLoadUnit_adds.fine hm
  | udevRegister device => cases h; exact udevRegister_adds.fine hm
  | udevRemove device =>
    cases h
    exact .units hm rfl rfl rfl fun n ↦ udevRemove_restartOk (hm.restartOk n)
  | tick =>
    cases h
    have hq : Quiet m { m with wheel := (m.wheel.popDue w.now).2 } := .of_eq rfl rfl rfl rfl rfl rfl
    refine (Fine.quiet hm hq).queue fun c hc ↦ ?_
    rcases List.mem_append.mp hc with hc | hc
    · obtain ⟨e, -, rfl⟩ := List.mem_map.mp hc
      trivial
    · simp only [List.mem_cons, List.not_mem_nil, or_false] at hc
      rcases hc with rfl | rfl | rfl <;> trivial
  | reap =>
    cases h
    refine (Fine.refl hm).queue fun c hc ↦ ?_
    obtain ⟨p, -, rfl⟩ := List.mem_map.mp hc
    trivial
  | pollPaths =>
    cases h
    exact (Fine.quiet hm .pollPaths).queue pollPaths_ok
  | notify ready pid =>
    rcases handleNotify_ends h with rfl | ⟨name, -, he⟩
    · exact .refl hm
    · exact he.fine hm
  | nameAcquired busName =>
    obtain ⟨name, m', hk, rfl | ⟨-, he⟩⟩ := nameAcquired_ends h
    · exact .local_ hm hk.toLocal
    · exact (Fine.local_ hm hk.toLocal).trans fun hm' ↦ he.fine hm'
  | socketReady fd =>
    cases h
    refine (Fine.refl hm).queue fun c hc ↦ ?_
    obtain ⟨t, -, rfl⟩ := Option.map_eq_some_iff.mp (Option.mem_toList.mp hc)
    trivial
  | enqueueStartJob name => exact enqueueStartJobMode_fine hm h
  | stopConflict name =>
    rcases stopConflict_cases h with rfl | ⟨-, rfl, -⟩
    · exact .refl hm
    · exact enqueueStopJobAfterMode_fine hm
  | stopDependent name =>
    cases h
    rcases stopDependent_cases name with he | ⟨-, -, he⟩
    · rw [he]; exact .refl hm
    · rw [he]; exact enqueueStopJobAfterMode_fine hm
  | expandOpen id name needs waiting ds => exact (expandOpen_cases h).fine hm hc
  | maybeStartJob id => exact maybeStartJob_fine hm h
  | maybeStopJob id => exact maybeStopJob_fine hm h
  | processJobs => cases h; exact (Fine.refl hm).queue (by simp [CallOk])
  | processPass ids changed => cases h; exact processPass_fine hm
  | jobCompleted id unit ok => cases h; exact jobCompleted_fine hm
  | pokeFailedJob id name => cases h; exact pokeFailedJob_fine hm
  | failUnit name msg => exact failUnit_fine hm h
  | fireOnFailure name =>
    obtain ⟨u, -, h⟩ := Option.bind_eq_some_iff.mp h
    cases h
    refine (Fine.refl hm).queue fun c hc ↦ ?_
    rcases List.mem_append.mp hc with hc | hc
    · obtain ⟨n, -, rfl⟩ := List.mem_map.mp hc
      trivial
    · cases List.mem_singleton.mp hc
      trivial
  | armStartTimeout name =>
    obtain ⟨u, -, h⟩ := Option.map_eq_some_iff.mp h
    cases h
    exact .quiet hm (.of_eq rfl rfl rfl rfl rfl rfl)
  | timerDepCheck =>
    obtain ⟨m', hm', rfl⟩ := Option.map_eq_some_iff.mp h
    exact .quiet hm (.rearmTimers hm')
  | fireTimer name kind => exact fireTimer_fine hm h
  | rearmTimer name =>
    obtain ⟨m', hm', rfl⟩ := Option.map_eq_some_iff.mp h
    exact .quiet hm (.rearmTimer hm')
  | processExit pid exit => exact processExit_fine hm h
  | mainExit name exit => exact mainExit_fine hm h

/-- What holds of every configuration that a run reaches. -/
structure SoundConfig (a : Worklist.Config Manager Call) : Prop where
  sound : Sound a.state
  calls : ∀ c ∈ a.todo, CallOk a.state c

theorem SoundConfig.step {m' : Manager} {c : Call} {rest : List Call}
    (h : SoundConfig ⟨m, c :: rest⟩) (he : exec w c m = some (m', cs)) :
    SoundConfig ⟨m', cs ++ rest⟩ :=
  have hf := exec_fine h.sound (h.calls c (List.mem_cons_self ..)) he
  ⟨hf.sound, fun c' hc' ↦ (List.mem_append.mp hc').elim (hf.calls c') fun hr ↦
    hf.evolves.callOk (h.calls c' (List.mem_cons_of_mem _ hr))⟩

theorem SoundConfig.arrive {c : Call} (h : SoundConfig ⟨m, []⟩) (hc : external c) :
    SoundConfig ⟨m, [c]⟩ := by
  refine ⟨h.sound, fun c' hc' ↦ ?_⟩
  cases List.mem_singleton.mp hc'
  cases c <;> trivial

theorem Booted.sound (h : Booted m) : Sound m := by
  obtain ⟨w, sa, bi, h⟩ := h
  have h₀ : Sound { socketActivation := sa, bootInstant := bi } :=
    ⟨fun i k h ↦ (by cases h), fun id job h ↦ (by cases h), fun id job h ↦ (by cases h),
      fun n u hu ↦ (by cases hu)⟩
  exact (loadAll_fine h₀ h).sound

theorem Reaches.sound {C : World → Call → Manager → Prop} {a : Worklist.Config Manager Call}
    (h : Reaches C a) : SoundConfig a := by
  obtain ⟨m, hb, hr⟩ := h
  exact hr.invariant (fun h ↦ h.arrive) (fun h _ _ he ↦ h.step he) ⟨hb.sound, nofun⟩

end Rystemd
