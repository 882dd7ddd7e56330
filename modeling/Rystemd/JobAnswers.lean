import Rystemd.JobAccounts

namespace Rystemd

open Worklist Manager

/-- How an answer about a job may change: a job that is pending may get its verdict, or be
forgotten. -/
inductive AnswerStep : Option JobStatus → Option JobStatus → Prop
  | same (s : Option JobStatus) : AnswerStep s s
  | verdict {s t : JobStatus} : s.state = "pending" → t.state = "done" → t.id = s.id →
      t.unit = s.unit → t.ok.isSome → AnswerStep (some s) (some t)
  | forgotten {s : JobStatus} : s.state = "pending" → AnswerStep (some s) none

/-- No id is given out again, and the answers about those that were given out change as they may. -/
structure Later (m m' : Manager) : Prop where
  nextJob : m.nextJob ≤ m'.nextJob
  answers : ∀ id ≤ m.nextJob, AnswerStep (m.jobStatusOf id) (m'.jobStatusOf id)

/-- The jobs and the results have ids that were given out, and no job has its result already. -/
structure Numbered (m : Manager) : Prop where
  pending : ∀ id job, m.jobs.get id = some job → id ≤ m.nextJob ∧ m.completedJobs.get id = none
  done : ∀ id s, m.completedJobs.get id = some s → id ≤ m.nextJob

variable {w : World} {c : Call} {b m m' m'' : Manager} {name : Name} {out : Out} {id i : JobId}
  {job : Job} {kind : JobKind} {mode : JobMode} {next : Option Name} {ok : Bool}
  {error : Option String} {r s t : Option JobStatus}

theorem AnswerStep.trans (h : AnswerStep r s) (h' : AnswerStep s t) : AnswerStep r t := by
  cases h with
  | same => exact h'
  | verdict hp hd hid hu hok =>
    cases h' with
    | same => exact .verdict hp hd hid hu hok
    | verdict hp' | forgotten hp' =>
      rw [hd] at hp'
      exact absurd hp' (by decide)
  | forgotten hp =>
    cases h' with
    | same => exact .forgotten hp

theorem Later.refl : Later m m := ⟨le_refl _, fun _ _ ↦ .same _⟩

theorem Later.trans (h : Later m m') (h' : Later m' m'') : Later m m'' :=
  ⟨h.nextJob.trans h'.nextJob, fun id hid ↦
    (h.answers id hid).trans (h'.answers id (hid.trans h.nextJob))⟩

theorem jobStatusOf_pending (h : m.jobs.get id = some job) :
    m.jobStatusOf id =
      some { id, unit := job.unit, state := "pending", ok := none, error := none } := by
  rw [jobStatusOf, h]

theorem jobStatusOf_gone (h : m.jobs.get id = none) :
    m.jobStatusOf id = m.completedJobs.get id := by
  rw [jobStatusOf, h]

theorem jobStatusOf_congr (hj : m'.jobs.get id = m.jobs.get id)
    (hc : m'.completedJobs.get id = m.completedJobs.get id) :
    m'.jobStatusOf id = m.jobStatusOf id := by
  rw [jobStatusOf, hj, hc, jobStatusOf]

/-- A table of jobs in which the jobs that are left are about the same units, and the others have
no result. -/
theorem Later.of_jobs (hn : Numbered m) (hnext : m'.nextJob = m.nextJob)
    (hc : m'.completedJobs = m.completedJobs)
    (hj : ∀ i, (m'.jobs.get i).map Job.unit = (m.jobs.get i).map Job.unit ∨ m'.jobs.get i = none) :
    Later m m' where
  nextJob := hnext.ge
  answers i _ := by
    cases hi : m.jobs.get i with
    | none =>
      have hi' : m'.jobs.get i = none := by
        rcases hj i with h | h
        · rw [hi, Option.map_none, Option.map_eq_none_iff] at h
          exact h
        · exact h
      rw [jobStatusOf_gone hi, jobStatusOf_gone hi', hc]
      exact .same _
    | some job =>
      rw [jobStatusOf_pending hi]
      cases hi' : m'.jobs.get i with
      | none =>
        rw [jobStatusOf_gone hi', hc, (hn.pending i job hi).2]
        exact .forgotten rfl
      | some job' =>
        have hu : job'.unit = job.unit := by
          rcases hj i with h | h
          · rw [hi, hi'] at h
            exact Option.some.inj h
          · rw [hi'] at h
            cases h
        rw [jobStatusOf_pending hi', hu]
        exact .same _

theorem Numbered.of_jobs (hn : Numbered m) (hnext : m'.nextJob = m.nextJob)
    (hc : m'.completedJobs = m.completedJobs)
    (hj : ∀ i, (m'.jobs.get i).isSome → (m.jobs.get i).isSome) : Numbered m' where
  pending i job hi := by
    obtain ⟨job', hi'⟩ := Option.isSome_iff_exists.mp (hj i (by rw [hi]; rfl))
    rw [hnext, hc]
    exact hn.pending i job' hi'
  done i s hs := by
    rw [hc] at hs
    rw [hnext]
    exact hn.done i s hs

theorem modifyJob_unit {f : Job → Job} (hf : ∀ job, (f job).unit = job.unit) (i : JobId) :
    ((m.modifyJob id f).jobs.get i).map Job.unit = (m.jobs.get i).map Job.unit := by
  rw [modifyJob, Table.get_modify]
  split
  · rw [Option.map_map]
    exact congrArg (Option.map · _) (funext hf)
  · rfl

theorem isSome_of_map_unit {j j' : Option Job} (h : j'.map Job.unit = j.map Job.unit)
    (hj : j'.isSome) : j.isSome := by
  rw [← Option.isSome_map (f := Job.unit), ← h, Option.isSome_map]
  exact hj

theorem finishes_later (hn : Numbered m) (hj : m.jobs.get id = some job) :
    Later m ((m.recordJobResult id ok error).removeJob id job.unit) ∧
      Numbered ((m.recordJobResult id ok error).removeJob id job.unit) := by
  have hjobs (i : JobId) : ((m.recordJobResult id ok error).removeJob id job.unit).jobs.get i =
      if i = id then none else m.jobs.get i := Table.get_remove
  have hdone (i : JobId) :
      ((m.recordJobResult id ok error).removeJob id job.unit).completedJobs.get i =
        if i = id then some { id, unit := job.unit, state := "done", ok := some ok, error }
        else m.completedJobs.get i := by
    rw [removeJob, recordJobResult, hj]
    exact Table.get_insert
  refine ⟨⟨le_refl _, fun i _ ↦ ?_⟩, ⟨fun i j hi ↦ ?_, fun i s hs ↦ ?_⟩⟩
  · by_cases he : i = id
    · subst he
      rw [jobStatusOf_pending hj, jobStatusOf_gone (by rw [hjobs, if_pos rfl]), hdone, if_pos rfl]
      exact .verdict rfl rfl rfl rfl rfl
    · rw [jobStatusOf_congr (by rw [hjobs, if_neg he]) (by rw [hdone, if_neg he])]
      exact .same _
  · rw [hjobs] at hi
    rw [hdone]
    split at hi
    · cases hi
    · next he =>
      rw [if_neg he]
      exact hn.pending i j hi
  · rw [hdone] at hs
    split at hs
    · next he =>
      rw [he]
      exact (hn.pending id job hj).1
    · exact hn.done i s hs

theorem newJob_later (hn : Numbered m) :
    Later m (m.newJob kind name mode next).2 ∧ Numbered (m.newJob kind name mode next).2 := by
  have hjobs (i : JobId) : (m.newJob kind name mode next).2.jobs.get i =
      if i = m.nextJob + 1 then some { unit := name, kind, mode, startAfterStop := next }
      else m.jobs.get i := Table.get_insert
  have hnext : (m.newJob kind name mode next).2.nextJob = m.nextJob + 1 := rfl
  refine ⟨⟨Nat.le_succ _, fun i hi ↦ ?_⟩, ⟨fun i j hi ↦ ?_, fun i s hs ↦ ?_⟩⟩
  · have hkept : (m.newJob kind name mode next).2.jobStatusOf i = m.jobStatusOf i :=
      jobStatusOf_congr (by rw [hjobs, if_neg (Nat.lt_succ_of_le hi).ne]) rfl
    rw [hkept]
    exact .same _
  · rw [hjobs] at hi
    rw [hnext]
    split at hi
    · next he =>
      refine ⟨he.le, ?_⟩
      cases hd : m.completedJobs.get i with
      | none => exact hd
      | some s =>
        have hle := hn.done i s hd
        rw [he] at hle
        exact absurd hle (Nat.not_succ_le_self _)
    · exact (hn.pending i j hi).imp_left Nat.le_succ_of_le
  · exact Nat.le_succ_of_le (hn.done i s hs)

theorem JobStep.later (hs : JobStep c b m m') (hn : Numbered m) : Later m m' ∧ Numbered m' := by
  cases hs with
  | same h _ =>
    exact ⟨.of_jobs hn h.nextJob h.completedJobs fun i ↦ .inl (by rw [h.jobs]),
      hn.of_jobs h.nextJob h.completedJobs fun i hi ↦ by rwa [h.jobs] at hi⟩
  | edits id hf =>
    have hu (i : JobId) : ((m.modifyJob id _).jobs.get i).map Job.unit = (m.jobs.get i).map Job.unit :=
      modifyJob_unit (fun job ↦ (hf.same job).1) i
    exact ⟨.of_jobs hn rfl rfl fun i ↦ .inl (hu i),
      hn.of_jobs rfl rfl fun i hi ↦ isSome_of_map_unit (hu i) hi⟩
  | finishes hj _ => exact finishes_later hn hj
  | enqueues => exact newJob_later hn
  | reindexes => exact ⟨.of_jobs hn rfl rfl fun i ↦ .inl rfl, hn.of_jobs rfl rfl fun _ hi ↦ hi⟩
  | @drops name id job =>
    have hjobs (i : JobId) : (b.jobs.remove id).get i = b.jobs.get i ∨
        (b.jobs.remove id).get i = none := by
      rw [Table.get_remove]
      split
      · exact .inr rfl
      · exact .inl rfl
    refine ⟨.of_jobs hn rfl rfl fun i ↦ ?_, hn.of_jobs rfl rfl fun i hi ↦ ?_⟩
    · exact (hjobs i).imp_left fun h ↦ congrArg (Option.map Job.unit) h
    · rcases hjobs i with h | h
      · rwa [h] at hi
      · rw [h] at hi
        cases hi
  | @forgets name id =>
    have hjobs (i : JobId) :
        ((b.jobs.remove id).mapValues (withoutWait name)).get i =
          (b.jobs.get i).map (withoutWait name) ∨
        ((b.jobs.remove id).mapValues (withoutWait name)).get i = none := by
      rw [Table.get_mapValues, Table.get_remove]
      split
      · exact .inr rfl
      · exact .inl rfl
    refine ⟨.of_jobs hn rfl rfl fun i ↦ ?_, hn.of_jobs rfl rfl fun i hi ↦ ?_⟩
    · refine (hjobs i).imp_left fun h ↦ ?_
      rw [h, Option.map_map]
      rfl
    · rcases hjobs i with h | h
      · rwa [h, Option.isSome_map] at hi
      · rw [h] at hi
        cases hi

theorem exec_later (h : exec w c m = some out) (hn : Numbered m) :
    Later m out.1 ∧ Numbered out.1 := by
  refine (exec_jobSteps h).keeps (I := fun m' ↦ Later m m' ∧ Numbered m') (fun hs hI ↦ ?_)
    ⟨.refl, hn⟩
  obtain ⟨hl, hn⟩ := hs.later hI.2
  exact ⟨hI.1.trans hl, hn⟩

theorem run_later {C : World → Call → Manager → Prop} {a b : Config Manager Call}
    (hn : Numbered a.state) (h : Run engine C a b) : Later a.state b.state ∧ Numbered b.state := by
  refine h.invariant (I := fun b ↦ Later a.state b.state ∧ Numbered b.state) (fun h _ ↦ h)
    (fun h _ _ he ↦ ?_) ⟨.refl, hn⟩
  obtain ⟨hl, hn⟩ := exec_later he h.2
  exact ⟨h.1.trans hl, hn⟩

theorem Booted.numbered (h : Booted m) : Numbered m where
  pending id job hj := by
    rw [h.pristine.jobs] at hj
    cases hj
  done id s hs := by
    rw [h.pristine.completedJobs] at hs
    cases hs

/-- In every run the answers about jobs are final: a verdict stays, a job that was forgotten stays
so, and no id is given to another job. -/
theorem answers_final {C : World → Call → Manager → Prop} {a b : Config Manager Call}
    (ha : Reaches C a) (h : Run engine C a b) : Later a.state b.state := by
  obtain ⟨m, hb, hr⟩ := ha
  exact (run_later (run_later hb.numbered hr).2 h).1

/-- A run that is shown can be played further. -/
theorem Shown.further {C : World → Call → Manager → Prop} [∀ w c m, Decidable (C w c m)]
    {p : Config Manager Call → Bool} (a : Shown C p) (moves : List (Move Call World))
    (q : Config Manager Call → Bool) (h : (Worklist.play engine C moves a.config).any q) :
    ∃ b, Run engine C a.config b ∧ q b := by
  obtain ⟨b, hb, hq⟩ := (Option.any_eq_true ..).mp h
  exact ⟨b, play_run hb, hq⟩

/-- The service is stopped before it is up, and its start job gets its verdict. -/
theorem answers_final_canceled : ∃ a b, Reaches (recordsJobs · · ·) a ∧
    Run engine (recordsJobs · · ·) a b ∧ Later a.state b.state ∧
      (a.state.jobs.get 1).isSome ∧ (b.state.jobStatusOf 1).any fun s ↦ s.state = "done" := by
  obtain ⟨b, hrun, hb⟩ := reportingStarted.further
    [.arrive (.stop "a.service" .replace), .calls reportingMachine 20]
    (fun b ↦ (b.state.jobStatusOf 1).any fun s ↦ s.state = "done") (by decide +kernel)
  have hshow := reportingStarted.shows
  rw [Bool.and_eq_true] at hshow
  exact ⟨_, b, reportingStarted.reached, hrun, answers_final reportingStarted.reached hrun,
    hshow.2, hb⟩

end Rystemd
