import Rystemd.HeldJobs
import Rystemd.JobSteps

namespace Rystemd

/-- The calls that start a unit, or restart one that is not running by starting it. -/
def Call.starts (name : Name) (c : Call) : Prop := (∃ mode, c = .start name mode) ∨ c.restarts name

/-- Why a call from `m` to `m'` changes a job or takes it away. -/
inductive Changes (m : Manager) (id : JobId) (job : Job) (c : Call) (m' : Manager) : Prop
  | own : c.jobId = some id → Changes m id job c m'
  | waits {unit : Name} : c.releases id unit → (∃ e ∈ job.waiting, e.unit = unit) →
      Changes m id job c m'
  | advances {ids : List JobId} {changed : Bool} : c = .processPass (id :: ids) changed →
      job.kind = .start → job.expanding = false → job.failed → Changes m id job c m'
  | fails {name : Name} {msg : String} : c = .failUnit name msg → m.unitJob.get name = some id →
      job.kind = .start → Changes m id job c m'
  | completes : m.unitJob.get job.unit = some id → job.kind = .start →
      (m'.activeOf job.unit = some .active ∨ m'.activeOf job.unit = some .inactive) →
      Changes m id job c m'
  | stops : m.unitJob.get job.unit = some id → job.kind = .stop →
      m'.activeOf job.unit = some .inactive → Changes m id job c m'
  | cancels {name : Name} : c.starts name → m.jobOf name = some (id, job) → job.kind ≠ .start →
      m.shuttingDown = false → m.unitActive name = false → Changes m id job c m'
  | replaced {name : Name} {mode : JobMode} : c = .stop name mode → m.unitOperational name →
      m.jobOf name = some (id, job) → job.kind = .start → Changes m id job c m'
  | locks {name : Name} {mode : JobMode} : c = .stop name mode → m.jobOf name = some (id, job) →
      job.kind ≠ .start → m'.jobs.get id = some { job with mode } → Changes m id job c m'
  | drops {name : Name} : c.restarts name → m.unitOperational name →
      m.jobOf name = some (id, job) → job.kind = .start → Changes m id job c m'
  | forgets {name : Name} : c = .startIgnoreDependencies name →
      (m.unitJob.get name = some id ∨ ∃ e ∈ job.waiting, e.unit = name) → Changes m id job c m'

variable {w : World} {c : Call} {m m₀ m' : Manager} {name : Name} {out : Out} {id : JobId}
  {job : Job} {kind : JobKind}

/-- What the end of a procedure about a unit may do to a job: it is the one of the unit, and what
it was for is over. -/
def Settled (name : Name) (m : Manager) (id : JobId) (job : Job) (m' : Manager) : Prop :=
  m.unitJob.get name = some id ∧
    ((job.kind = .start ∧ (m'.activeOf name = some .active ∨ m'.activeOf name = some .inactive)) ∨
      (job.kind = .stop ∧ m'.activeOf name = some .inactive))

theorem Settled.changes (h : Settled name m id job m') (hm : Sound m) (hj : m.jobs.get id = some job) :
    Changes m id job c m' := by
  obtain ⟨hx, h⟩ := h
  obtain ⟨job', hj', rfl⟩ := hm.points name id hx
  rw [hj] at hj'
  cases hj'
  rcases h with ⟨hk, ha⟩ | ⟨hk, ha⟩
  · exact .completes hx hk ha
  · exact .stops hx hk ha

theorem completeJob_jobs {kinds : JobKind → Bool} (h : m.completeJob w name kinds = some out)
    (hj : m.jobs.get id = some job) :
    out.1.jobs.get id = some job ∨ (m.unitJob.get name = some id ∧ kinds job.kind) := by
  rcases completeJob_cases h with ⟨-, rfl⟩ | ⟨jid, job', hx, hj', ⟨hk, rfl⟩ | ⟨-, rfl⟩⟩
  · exact .inl hj
  · by_cases he : id = jid
    · subst he
      rw [hj] at hj'
      cases hj'
      exact .inr ⟨hx, hk⟩
    · exact .inl ((finishJob_spares he).trans hj)
  · exact .inl hj

/-- The end of a start or of a stop settles the job of the unit at most. -/
theorem Puts.completes {s : ActiveState} (hp : Puts name s m m')
    (hs : s = .active ∨ s = .inactive) (ho : m'.completeStartJob w name = some out)
    (hj : m.jobs.get id = some job) :
    out.1.jobs.get id = some job ∨ Settled name m id job out.1 := by
  have hall := JobsOnly.completeJob ho
  have ha : out.1.activeOf name = some s := by rw [hall.activeOf, hp.active]
  refine (completeJob_jobs ho (by rw [hp.jobs, hj])).imp_right fun ⟨hx, hk⟩ ↦ ?_
  refine ⟨by rwa [hp.unitJob] at hx, .inl ⟨of_decide_eq_true hk, ?_⟩⟩
  rcases hs with rfl | rfl
  · exact .inl ha
  · exact .inr ha

theorem Ends.jobs (h : Ends w name kind m out) (hkind : job.kind ≠ .restart)
    (hj : m.jobs.get id = some job) :
    out.1.jobs.get id = some job ∨ Settled name m id job out.1 := by
  induction h with
  | waits hk | fails _ _ hk => exact .inl (by rw [hk.jobs, hj])
  | completes hp hs ho => exact hp.completes hs ho hj
  | stops hp ho =>
    have hall := JobsOnly.completeJob ho
    refine (completeJob_jobs ho (by rw [hp.jobs, hj])).imp_right fun ⟨hx, hk⟩ ↦ ?_
    refine ⟨by rwa [hp.unitJob] at hx, .inr ⟨?_, by rw [hall.activeOf, hp.active]⟩⟩
    simpa [hkind] using hk
  | spawns idx main hk _ _ _ _ _ _ ih =>
    refine (ih (by rw [← hj]; exact congrArg (·.get id) hk.jobs)).imp_right fun ⟨hx, h⟩ ↦ ?_
    exact ⟨by rw [← hk.unitJob]; exact hx, h⟩

theorem ActiveExit.jobs (h : ActiveExit w name m out) (hj : m.jobs.get id = some job) :
    out.1.jobs.get id = some job ∨ Settled name m id job out.1 := by
  cases h with
  | limit hp | failed hp => exact .inl (by rw [hp.jobs, hj])
  | restart delay hk => exact .inl (by rw [scheduleRestart_local.jobs, hk.jobs, hj])
  | ended hp hs ho =>
    have h := hp.completes hs ho hj
    exact h

/-- What a procedure about a unit does after others that touch no job. -/
theorem Settled.of_local (h : m'.jobs.get id = some job → out.1.jobs.get id = some job ∨
    Settled name m' id job out.1) (hj : m'.jobs = m.jobs) (hx : m'.unitJob = m.unitJob)
    (hjob : m.jobs.get id = some job) :
    out.1.jobs.get id = some job ∨ Settled name m id job out.1 := by
  refine (h (by rw [hj, hjob])).imp_right fun ⟨hx', hs⟩ ↦ ⟨?_, hs⟩
  rwa [hx] at hx'

theorem mainExit_jobs {exit : ChildExit} (h : m.mainExit w name exit = some out)
    (hkind : job.kind ≠ .restart) (hj : m.jobs.get id = some job) :
    out.1.jobs.get id = some job ∨ Settled name m id job out.1 := by
  have hf : Local name m (m.forgetMain name) := Touches.forgetMain.toLocal
  obtain ⟨u, -, h⟩ := mainExit_ends h
  refine Settled.of_local (fun hj ↦ ?_) hf.jobs hf.unitJob hj
  cases h with
  | stopped _ he => exact he.jobs hkind hj
  | vanished _ _ hp => exact .inl (by rw [hp.jobs, hj])
  | fails _ hk => exact .inl (by rw [hk.jobs, hj])
  | active _ _ he => exact he.jobs hj

theorem handleControlExit_jobs {exit : ChildExit} (h : m.handleControlExit w name exit = some out)
    (hkind : job.kind ≠ .restart) (hj : m.jobs.get id = some job) :
    out.1.jobs.get id = some job ∨ Settled name m id job out.1 := by
  have hf : Local name m (m.forgetControl name) := Touches.forgetControl.toLocal
  refine Settled.of_local (fun hj ↦ ?_) hf.jobs hf.unitJob hj
  rcases handleControlExit_cases h with ⟨-, he⟩ | ⟨-, m', rfl | ⟨pid, rfl⟩, he⟩ | ⟨-, rfl⟩ | rfl
  · exact he.jobs hkind hj
  · exact he.jobs hkind hj
  · exact Settled.of_local (fun hj ↦ he.jobs hkind hj) Local.adoptPid.jobs Local.adoptPid.unitJob hj
  · exact .inl hj
  · exact .inl hj

theorem doStart_jobs (h : m.doStart w name = some out) (hkind : job.kind ≠ .restart)
    (hj : m.jobs.get id = some job) :
    out.1.jobs.get id = some job ∨ Settled name m id job out.1 := by
  obtain ⟨m₁, hl, -, he⟩ := (doStart_begins h).ends
  exact Settled.of_local (fun hj ↦ he.jobs hkind hj) hl.jobs hl.unitJob hj

theorem doStop_jobs (h : m.doStop w name = some out) (hkind : job.kind ≠ .restart)
    (hj : m.jobs.get id = some job) :
    out.1.jobs.get id = some job ∨ Settled name m id job out.1 := by
  obtain ⟨m₁, hp, he⟩ := doStop_begins h
  exact Settled.of_local (fun hj ↦ he.jobs hkind hj) hp.jobs hp.unitJob hj

theorem modifyJob_get_self {f : Job → Job} (hj : m.jobs.get id = some job) :
    (m.modifyJob id f).jobs.get id = some (f job) := by
  rw [Manager.modifyJob, Table.get_modify, if_pos rfl, hj, Option.map_some]

theorem tryAdvanceJob_jobs (hj : m.jobs.get id = some job) :
    (m.tryAdvanceJob w id).2.1.jobs.get id = some job ∨
      (job.kind = .start ∧ job.expanding = false ∧ job.failed) := by
  unfold Manager.tryAdvanceJob
  rw [hj]
  dsimp only
  split
  · next hk =>
    split
    · exact .inl hj
    · next he =>
      split
      · next hf => exact .inr ⟨hk, eq_false_of_ne_true he, hf⟩
      · split <;> exact .inl hj
  · split <;> exact .inl hj
  · exact .inl hj

theorem withoutWait_eq (h : ∀ e ∈ job.waiting, e.unit ≠ name) : Manager.withoutWait name job = job := by
  have : job.waiting.filter (fun e ↦ e.unit ≠ name) = job.waiting :=
    List.filter_eq_self.mpr fun e he ↦ decide_eq_true (h e he)
  rw [Manager.withoutWait, this]

theorem releaseWait_jobs (hj : m.jobs.get id = some job) (h : ∀ e ∈ job.waiting, e.unit ≠ name) :
    (m.releaseWait w id job name).1.jobs.get id = some job := by
  have hsame := withoutWait_eq h
  unfold Manager.releaseWait
  rw [hsame, if_pos rfl, modifyJob_get_self hj, hsame]

theorem waitsRequired_eq_false (h : ∀ e ∈ job.waiting, e.unit ≠ name) :
    Manager.waitsRequired job name = false := by
  rw [Manager.waitsRequired, List.find?_eq_none.mpr fun e he ↦ by simpa using h e he]
  rfl

theorem jobCompleted_jobs {i : JobId} {ok : Bool} (hj : m.jobs.get id = some job) :
    (m.jobCompleted w i name ok).1.jobs.get id = some job ∨
      (i = id ∧ ∃ e ∈ job.waiting, e.unit = name) := by
  by_cases he : id = i
  · subst he
    by_cases hw : ∃ e ∈ job.waiting, e.unit = name
    · exact .inr ⟨rfl, hw⟩
    · have hw : ∀ e ∈ job.waiting, e.unit ≠ name := by simpa using hw
      left
      rw [Manager.jobCompleted, hj]
      simpa [waitsRequired_eq_false hw] using releaseWait_jobs hj hw
  · exact .inl ((jobCompleted_spares he).trans hj)

theorem pokeFailedJob_jobs {i : JobId} (hj : m.jobs.get id = some job) :
    (m.pokeFailedJob w i name).1.jobs.get id = some job ∨
      (i = id ∧ ∃ e ∈ job.waiting, e.unit = name) := by
  by_cases he : id = i
  · subst he
    by_cases hw : ∃ e ∈ job.waiting, e.unit = name
    · exact .inr ⟨rfl, hw⟩
    · have hw : ∀ e ∈ job.waiting, e.unit ≠ name := by simpa using hw
      left
      rw [Manager.pokeFailedJob, hj]
      simpa [waitsRequired_eq_false hw] using releaseWait_jobs hj hw
  · exact .inl ((pokeFailedJob_spares he).trans hj)

section Requests

theorem Sound.ne_fresh (hm : Sound m) (hj : m.jobs.get id = some job) : id ≠ m.nextJob + 1 := by
  rintro rfl
  rw [Builds.fresh_none hm] at hj
  cases hj

theorem enqueueStartJob_jobs {mode : JobMode} (hm : Sound m) (hj : m.jobs.get id = some job)
    (h : m.enqueueStartJobMode w name mode = some out) : out.1.jobs.get id = some job := by
  rw [(expandStartJob_cases h).spares (hm.ne_fresh hj), newJob_spares (hm.ne_fresh hj), hj]

theorem enqueueStop_jobs {mode : JobMode} {next : Option Name} (hm : Sound m)
    (hj : m.jobs.get id = some job) :
    (m.enqueueStopJobAfterMode w name next mode).1.jobs.get id = some job :=
  (newJob_spares (hm.ne_fresh hj)).trans hj

theorem unitActive_false_of_adds (ha : Adds m m') (h : m'.unitActive name = false) :
    m.unitActive name = false := by
  refine eq_false_of_ne_true fun hna ↦ ?_
  obtain ⟨u, hu, hua⟩ := (Option.any_eq_true ..).mp hna
  rw [Manager.unitActive, ha.units.kept name u hu, Option.any_some, hua] at h
  cases h

theorem Adds.jobOf (ha : Adds m m') : m'.jobOf name = m.jobOf name := by
  rw [Manager.jobOf, ha.unitJob, ha.jobs, Manager.jobOf]

theorem Starts.changes {mode : JobMode} {reply : Manager.StartReply} (hm : Sound m)
    (h : Starts w m name mode reply out) (hc : c.starts name) (hj : m.jobs.get id = some job) :
    out.1.jobs.get id = some job ∨ Changes m id job c out.1 := by
  cases h with
  | unloadable => exact .inl hj
  | shutdown hl | active hl | pending hl | irreversible _ hl =>
    exact .inl (by rw [(ensureUnitLoaded_adds hl).jobs, hj])
  | cancels msg hl hs ha hof hk =>
    rename_i m' jid other
    have hadds := ensureUnitLoaded_adds hl
    by_cases he : id = jid
    · subst he
      have hjob : other = job := by
        have hget := (jobOf_eq hof).2
        rw [hadds.jobs, hj] at hget
        exact (Option.some.inj hget).symm
      subst hjob
      refine .inr (.cancels hc (by rw [← hadds.jobOf, hof]) hk ?_ (unitActive_false_of_adds hadds ha))
      rw [← hadds.shuttingDown, hs]
    · refine .inl ((cancelJob_spares he).trans ?_)
      rw [hadds.jobs, hj]
  | enqueues hl _ _ _ ho =>
    have hadds := ensureUnitLoaded_adds hl
    have hget := enqueueStartJob_jobs (hadds.fine hm).sound (by rw [hadds.jobs, hj]) ho
    exact .inl hget

theorem restart_changes {reply : Manager.Reply} (hm : Sound m) (hc : c.restarts name)
    (h : m.restart w name = some (reply, out)) (hj : m.jobs.get id = some job) :
    out.1.jobs.get id = some job ∨ Changes m id job c out.1 := by
  rcases restart_cases h with ⟨-, rfl⟩ | ⟨-, rfl, -⟩ | ⟨ho, cs, -, rfl⟩ | ⟨-, reply', h, -⟩
  · exact .inl hj
  · exact .inl hj
  · have hs : Sound (m.dropStartJob name) := (dropStartJob_fine hm).sound
    by_cases hd : (m.dropStartJob name).jobs.get id = some job
    · exact .inl (enqueueStop_jobs (w := w) hs hd)
    · refine .inr ?_
      unfold Manager.dropStartJob at hd
      split at hd
      · exact absurd hj hd
      · next jid other hof =>
        split at hd
        · next hk =>
          by_cases he : id = jid
          · subst he
            have hget := (jobOf_eq hof).2
            rw [hj] at hget
            cases hget
            exact .drops hc ho hof hk
          · rw [show (m.jobs.remove jid).get id = m.jobs.get id from Table.get_remove.trans (if_neg he)]
              at hd
            exact absurd hj hd
        · exact absurd hj hd
  · exact h.changes hm (.inr hc) hj

theorem stopWithMode_changes {mode : JobMode} (hm : Sound m) (hj : m.jobs.get id = some job) :
    (m.stopWithMode w name mode).2.1.jobs.get id = some job ∨
      Changes m id job (.stop name mode) (m.stopWithMode w name mode).2.1 := by
  unfold Manager.stopWithMode
  split
  · exact .inl hj
  · split
    · exact .inl hj
    · next ho =>
      have ho : m.unitOperational name := by simpa using ho
      split
      · exact .inl (enqueueStop_jobs (w := w) hm hj)
      · next jid other hof =>
        by_cases he : id = jid
        · subst he
          have hget := (jobOf_eq hof).2
          rw [hj] at hget
          cases hget
          split
          · next hk => exact .inr (.replaced rfl ho hof hk)
          · next hk =>
            dsimp only
            split
            · exact .inr (.locks rfl hof hk (modifyJob_get_self hj))
            · exact .inl hj
        · split
          · exact .inl ((cancelJob_spares he).trans hj)
          · dsimp only
            split
            · exact .inl ((modifyJob_spares he).trans hj)
            · exact .inl hj

theorem startIgnoreDependencies_changes (hm : Sound m) (hj : m.jobs.get id = some job) :
    (m.startIgnoreDependencies name).2.1.jobs.get id = some job ∨
      Changes m id job (.startIgnoreDependencies name) (m.startIgnoreDependencies name).2.1 := by
  unfold Manager.startIgnoreDependencies
  split
  · exact .inl hj
  · split
    · exact .inl hj
    · have hs : Sound (m.dropJob name) := (dropJob_fine hm).sound
      by_cases hd : (m.dropJob name).jobs.get id = some job
      · exact .inl ((newJob_spares (hs.ne_fresh hd)).trans hd)
      · refine .inr (.forgets rfl ?_)
        by_contra hn
        obtain ⟨hx, hw⟩ := not_or.mp hn
        refine hd ?_
        unfold Manager.dropJob
        split
        · exact hj
        · next jid hjid =>
          have he : id ≠ jid := fun he ↦ hx (by rw [he, hjid])
          have hget : (m.jobs.remove jid).get id = some job := (Table.get_remove.trans (if_neg he)).trans hj
          change ((m.jobs.remove jid).mapValues (Manager.withoutWait name)).get id = _
          rw [Table.get_mapValues, hget, Option.map_some, withoutWait_eq (by simpa using hw)]

end Requests

/-- A call leaves a job as it is, or it changes it for one of these reasons. -/
theorem exec_changes (hm : Sound m) (h : exec w c m = some out) (hj : m.jobs.get id = some job) :
    out.1.jobs.get id = some job ∨ Changes m id job c out.1 := by
  have hkind := hm.kinds id job hj
  have settled {name : Name} (h : out.1.jobs.get id = some job ∨ Settled name m id job out.1) :
      out.1.jobs.get id = some job ∨ Changes m id job c out.1 :=
    h.imp_right fun hs ↦ hs.changes hm hj
  have quiet {m' : Manager} (hq : m'.jobs = m.jobs) : m'.jobs.get id = some job := by rw [hq, hj]
  cases c with
  | start name mode =>
    obtain ⟨⟨reply, o⟩, hr, rfl⟩ := Option.map_eq_some_iff.mp h
    exact (startWithMode_cases hr).changes hm (.inl ⟨mode, rfl⟩) hj
  | startIgnoreDependencies name => cases h; exact startIgnoreDependencies_changes hm hj
  | stop name mode => cases h; exact stopWithMode_changes hm hj
  | enqueueStop name mode => cases h; exact .inl (enqueueStop_jobs (w := w) hm hj)
  | revive name =>
    obtain ⟨m', hp, rfl⟩ := revive_puts h
    exact .inl (quiet hp.jobs)
  | restart name =>
    obtain ⟨⟨reply, o⟩, hr, rfl⟩ := Option.map_eq_some_iff.mp h
    exact restart_changes hm rfl hr hj
  | restartActivated name | tryRestart name =>
    change (if _ then _ else _) = _ at h
    split at h
    · obtain ⟨⟨reply, o⟩, hr, rfl⟩ := Option.map_eq_some_iff.mp h
      exact restart_changes hm rfl hr hj
    · cases h
      exact .inl hj
  | restartOrStart name =>
    change (if _ then _ else _) = _ at h
    split at h
    · obtain ⟨⟨reply, o⟩, hr, rfl⟩ := Option.map_eq_some_iff.mp h
      exact restart_changes hm rfl hr hj
    · obtain ⟨⟨reply, o⟩, hr, rfl⟩ := Option.map_eq_some_iff.mp h
      exact (startWithMode_cases hr).changes hm (.inr rfl) hj
  | reload name => exact settled ((reload_ends h .start).jobs hkind hj)
  | kill name sig =>
    obtain ⟨u, -, h⟩ := Option.bind_eq_some_iff.mp h
    cases h
    split <;> exact .inl hj
  | resetFailed name =>
    cases h
    rcases (resetFailed_cases : m.resetFailed name = m ∨ _) with he | ⟨-, hp⟩
    · exact .inl (by rw [he]; exact hj)
    · exact .inl (quiet hp.jobs)
  | shutdown =>
    cases h
    unfold Manager.shutdown
    split <;> exact .inl hj
  | loadAll =>
    obtain ⟨m', hm', rfl⟩ := Option.map_eq_some_iff.mp h
    obtain ⟨m₁, ha, hq, -⟩ := loadAll_cases hm'
    exact .inl (quiet (hq.jobs.trans ha.jobs))
  | loadUnit name => cases h; exact .inl (quiet busLoadUnit_adds.jobs)
  | udevRegister device => cases h; exact .inl (quiet udevRegister_adds.jobs)
  | pollPaths => cases h; exact .inl (quiet Quiet.pollPaths.jobs)
  | notify ready pid =>
    rcases handleNotify_ends h with rfl | ⟨name, -, he⟩
    · exact .inl hj
    · exact settled (he.jobs hkind hj)
  | nameAcquired busName =>
    obtain ⟨name, m', hk, rfl | ⟨-, he⟩⟩ := nameAcquired_ends h
    · exact .inl (quiet hk.jobs)
    · exact settled (Settled.of_local (fun hj ↦ he.jobs hkind hj) hk.jobs hk.unitJob hj)
  | enqueueStartJob name => exact .inl (enqueueStartJob_jobs hm hj h)
  | stopConflict name =>
    rcases stopConflict_cases h with rfl | ⟨-, rfl, -⟩
    · exact .inl hj
    · exact .inl (enqueueStop_jobs (w := w) hm hj)
  | stopDependent name =>
    cases h
    rcases stopDependent_cases name with he | ⟨-, -, he⟩
    · exact .inl (by rw [he]; exact hj)
    · exact .inl (by rw [he]; exact enqueueStop_jobs (w := w) hm hj)
  | expandOpen i name needs waiting ds =>
    by_cases he : id = i
    · exact .inr (.own (by rw [he, Call.jobId]))
    · exact .inl ((expandOpen_cases h).spares he |>.trans hj)
  | maybeStartJob i =>
    by_cases he : id = i
    · exact .inr (.own (by rw [he, Call.jobId]))
    · obtain ⟨job', -, ⟨-, rfl⟩ | ⟨-, -, rfl⟩ | ⟨-, -, -, -, m', hk, h⟩⟩ := maybeStartJob_cases h
      · exact .inl ((finishJobFailed_spares he).trans hj)
      · exact .inl hj
      · have hm' : m'.jobs.get id = some job := by
          rw [hk.jobs, Manager.markStarted, modifyJob_spares he, hj]
        rcases h with ⟨msg, rfl⟩ | h
        · exact .inl ((finishJobFailed_spares he).trans ((modifyJob_spares he).trans hm'))
        · rcases doStart_jobs h hkind hm' with hd | ⟨hx, hs⟩
          · exact .inl hd
          · rw [hk.unitJob] at hx
            exact settled (.inr ⟨hx, hs⟩)
  | maybeStopJob i =>
    by_cases he : id = i
    · exact .inr (.own (by rw [he, Call.jobId]))
    · obtain ⟨job', hj', ⟨-, rfl⟩ | ⟨-, -, rfl⟩ | ⟨-, -, h⟩⟩ := maybeStopJob_cases h
      · exact .inl ((finishJob_spares he).trans hj)
      · exact .inl hj
      · refine .inl ((doStop_jobs h hkind ((modifyJob_spares he).trans hj)).resolve_right ?_)
        rintro ⟨hx, -⟩
        exact he (Option.some.inj (Table.get_insert_self.symm.trans hx)).symm
  | processPass ids changed =>
    cases h
    change (m.processPass w ids changed).1.jobs.get id = some job ∨ _
    unfold Manager.processPass
    split
    · exact .inl hj
    · next i ids =>
      by_cases he : id = i
      · subst he
        refine (tryAdvanceJob_jobs hj).imp_right ?_
        rintro ⟨hk, hx, hf⟩
        exact .advances rfl hk hx hf
      · exact .inl ((tryAdvanceJob_spares he).trans hj)
  | jobCompleted i unit ok =>
    cases h
    refine (jobCompleted_jobs hj).imp_right ?_
    rintro ⟨rfl, hw⟩
    exact .waits (.inl ⟨ok, rfl⟩) hw
  | pokeFailedJob i name =>
    cases h
    refine (pokeFailedJob_jobs hj).imp_right ?_
    rintro ⟨rfl, hw⟩
    exact .waits (.inr rfl) hw
  | failUnit name msg =>
    obtain ⟨m', hp, ⟨jid, job', hx, hj', hk, rfl⟩ | ⟨-, rfl⟩⟩ := failUnit_ends h
    · by_cases he : id = jid
      · subst he
        rw [hj] at hj'
        cases hj'
        exact .inr (.fails rfl hx hk)
      · exact .inl ((finishJobFailed_spares he).trans ((modifyJob_spares he).trans (quiet hp.jobs)))
    · exact .inl (quiet hp.jobs)
  | armStartTimeout name =>
    obtain ⟨u, -, h⟩ := Option.map_eq_some_iff.mp h
    cases h
    exact .inl hj
  | timerDepCheck =>
    obtain ⟨m', hm', rfl⟩ := Option.map_eq_some_iff.mp h
    exact .inl (quiet (Quiet.rearmTimers hm').jobs)
  | fireTimer name kind =>
    rcases fireTimer_cases h with h | ⟨m', target, hq, rfl⟩
    · cases h with
      | ignored => exact .inl hj
      | restart _ _ ho =>
        have hs := doStart_jobs ho hkind hj
        exact settled hs
      | start msg _ hk => exact .inl (quiet hk.jobs)
      | stop _ he => exact settled (he.jobs hkind hj)
    · exact .inl (quiet hq.jobs)
  | rearmTimer name =>
    obtain ⟨m', hm', rfl⟩ := Option.map_eq_some_iff.mp h
    exact .inl (quiet (Quiet.rearmTimer hm').jobs)
  | processExit pid exit =>
    cases processExit_cases h with
    | ignored | main => exact .inl hj
    | control _ _ _ _ h =>
        exact settled (Settled.of_local (fun hj ↦ handleControlExit_jobs h hkind hj) rfl rfl hj)
  | mainExit name exit => exact settled (mainExit_jobs h hkind hj)
  | udevRemove | tick | isolate | reap | socketReady | processJobs => cases h; exact .inl hj
  | fireOnFailure name =>
    obtain ⟨u, -, h⟩ := Option.bind_eq_some_iff.mp h
    cases h
    exact .inl hj

end Rystemd
