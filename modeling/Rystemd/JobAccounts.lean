import Rystemd.JobSteps

namespace Rystemd

open Worklist

/-- A restart of a running unit does not meet its start job, and no job has to give way to a
start that ignores the dependencies. -/
def recordsJobs (_ : World) (c : Call) (m : Manager) : Bool :=
  match c with
  | .restart n | .restartActivated n | .tryRestart n | .restartOrStart n =>
    !(m.unitOperational n && (m.jobOf n).any fun j ↦ j.2.kind = .start)
  | .startIgnoreDependencies n => !m.units.contains n || m.unitActive n || !m.unitJob.contains n
  | _ => true

/-- Each id that was given out is reported once: it is pending, or it is done and has a verdict. -/
def JobsAccounted (m : Manager) : Prop :=
  ∀ id, 0 < id → id ≤ m.nextJob → ∃ s, m.jobStatus [id] = [s] ∧ s.id = id ∧
    ((s.state = "pending" ∧ (m.jobs.get id).isSome ∧ m.completedJobs.get id = none) ∨
      (s.state = "done" ∧ s.ok.isSome ∧ m.jobs.get id = none ∧ m.completedJobs.get id = some s))

/-- The ids in the table and the results are those given out, and none is in both. -/
structure Accounted (m : Manager) : Prop where
  pending : ∀ id job, m.jobs.get id = some job → id ≤ m.nextJob
  done : ∀ id s, m.completedJobs.get id = some s →
    id ≤ m.nextJob ∧ m.jobs.get id = none ∧ s.id = id ∧ s.state = "done" ∧ s.ok.isSome
  kept : ∀ id, 0 < id → id ≤ m.nextJob →
    (m.jobs.get id).isSome ∨ (m.completedJobs.get id).isSome

variable {w : World} {c : Call} {b m m' : Manager} {name : Name} {out : Out} {id : JobId} {job : Job}
  {kind : JobKind}

namespace Accounted

theorem of_eq (h : Accounted m) (hj : m'.jobs = m.jobs) (hn : m'.nextJob = m.nextJob)
    (hc : m'.completedJobs = m.completedJobs) : Accounted m' where
  pending := by rw [hj, hn]; exact h.pending
  done := by rw [hj, hn, hc]; exact h.done
  kept := by rw [hj, hn, hc]; exact h.kept

theorem edits (h : Accounted m) (f : Job → Job) : Accounted (m.modifyJob id f) where
  pending i job hj := by
    rw [Manager.modifyJob, Table.get_modify] at hj
    split at hj
    · obtain ⟨job, hj, -⟩ := Option.map_eq_some_iff.mp hj
      exact h.pending i job hj
    · exact h.pending i job hj
  done i s hs := by
    obtain ⟨hi, hj, hr⟩ := h.done i s hs
    refine ⟨hi, ?_, hr⟩
    rw [Manager.modifyJob, Table.get_modify, hj, Option.map_none, ite_self]
  kept i hp hi := by
    rw [Manager.modifyJob, Table.get_modify]
    refine (h.kept i hp hi).imp_left fun hj ↦ ?_
    split
    · rwa [Option.isSome_map]
    · exact hj

theorem finishes (h : Accounted m) (hj : m.jobs.get id = some job) (ok : Bool)
    (error : Option String) : Accounted ((m.recordJobResult id ok error).removeJob id job.unit) := by
  have hjobs : ∀ i, ((m.recordJobResult id ok error).removeJob id job.unit).jobs.get i =
      if i = id then none else m.jobs.get i := fun _ ↦ Table.get_remove
  have hdone : ∀ i, ((m.recordJobResult id ok error).removeJob id job.unit).completedJobs.get i =
      if i = id then some { id, unit := job.unit, state := "done", ok := some ok, error }
      else m.completedJobs.get i := by
    intro i
    rw [Manager.removeJob, Manager.recordJobResult, hj]
    exact Table.get_insert
  refine ⟨fun i j hi ↦ ?_, fun i s hs ↦ ?_, fun i hp hi ↦ ?_⟩
  · rw [hjobs] at hi
    split at hi
    · cases hi
    · exact h.pending i j hi
  · rw [hdone] at hs
    rw [hjobs]
    split at hs
    · next he =>
      cases hs
      subst he
      exact ⟨h.pending i job hj, by rw [if_pos rfl], rfl, rfl, rfl⟩
    · next hne =>
      rw [if_neg hne]
      exact h.done i s hs
  · rw [hjobs, hdone]
    split
    · exact .inr rfl
    · exact h.kept i hp hi

theorem newJob (h : Accounted m) (kind : JobKind) (name : Name) (mode : JobMode)
    (next : Option Name) : Accounted (m.newJob kind name mode next).2 := by
  have hjobs : ∀ i, (m.newJob kind name mode next).2.jobs.get i =
      if i = m.nextJob + 1 then some { unit := name, kind, mode, startAfterStop := next }
      else m.jobs.get i := fun _ ↦ Table.get_insert
  have hnext : (m.newJob kind name mode next).2.nextJob = m.nextJob + 1 := rfl
  refine ⟨fun i j hi ↦ ?_, fun i s hs ↦ ?_, fun i hp hi ↦ ?_⟩
  · rw [hjobs] at hi
    rw [hnext]
    split at hi
    · next he => exact he.le
    · exact Nat.le_succ_of_le (h.pending i j hi)
  · obtain ⟨hi, hj, hr⟩ := h.done i s hs
    refine ⟨Nat.le_succ_of_le hi, ?_, hr⟩
    rw [hjobs, if_neg (Nat.lt_succ_of_le hi).ne, hj]
  · rw [hjobs]
    split
    · exact .inl rfl
    · next hne => exact h.kept i hp (Nat.le_of_lt_succ (lt_of_le_of_ne hi hne))

theorem step (h : Accounted m) (hc : recordsJobs w c b) (hs : JobStep c b m m') : Accounted m' := by
  cases hs with
  | same hs _ => exact h.of_eq hs.jobs hs.nextJob hs.completedJobs
  | edits id hf => exact h.edits _
  | finishes hj _ => exact h.finishes hj _ _
  | enqueues hq => exact h.newJob _ _ _ _
  | reindexes => exact h.of_eq rfl rfl rfl
  | drops hr ho hj hk =>
    cases c <;> try cases hr
    all_goals simp [recordsJobs, ho, hj, hk] at hc
  | forgets he hu ha hx =>
    subst he
    simp [recordsJobs, Table.contains, hu, ha, hx] at hc

theorem accounts (h : Accounted m) : JobsAccounted m := by
  intro id hp hi
  cases hj : m.jobs.get id with
  | some job =>
    refine ⟨{ id, unit := job.unit, state := "pending", ok := none, error := none }, ?_, rfl,
      .inl ⟨rfl, rfl, ?_⟩⟩
    · rw [Manager.jobStatus, List.filterMap_cons, Manager.jobStatusOf, hj]
      rfl
    · by_contra hd
      obtain ⟨s, hs⟩ := Option.ne_none_iff_exists'.mp hd
      rw [(h.done id s hs).2.1] at hj
      cases hj
  | none =>
    have hd := (h.kept id hp hi).resolve_left (by simp [hj])
    obtain ⟨s, hs⟩ := Option.isSome_iff_exists.mp hd
    obtain ⟨-, -, he, hst, hok⟩ := h.done id s hs
    refine ⟨s, ?_, he, .inr ⟨hst, hok, rfl, hs⟩⟩
    rw [Manager.jobStatus, List.filterMap_cons, Manager.jobStatusOf, hj, hs]
    rfl

end Accounted

/-- While no job is dropped, every id that was given out can be asked for. -/
theorem jobs_accounted {a : Config Manager Call} (h : Reaches (recordsJobs · · ·) a) :
    JobsAccounted a.state := by
  obtain ⟨m, hb, hr⟩ := h
  have hp := hb.pristine
  suffices Accounted a.state from this.accounts
  refine hr.invariant (I := fun a ↦ Accounted a.state) (fun h _ ↦ h)
    (fun h _ hc he ↦ (exec_jobSteps he).keeps (fun hs hm ↦ hm.step hc hs) h)
    ⟨fun id job hj ↦ ?_, fun id s hs ↦ ?_, fun id hp' hi ↦ ?_⟩
  · rw [hp.jobs] at hj
    cases hj
  · rw [hp.completedJobs] at hs
    cases hs
  · rw [hp.nextJob] at hi
    exact absurd hp' hi.not_gt

/-- A machine with one service that tells when it is up. -/
def reportingMachine : World :=
  .ofFiles [("a.service", { service := some { serviceType := .notify, execStart := [⟨["a"], false⟩] } })]

/-- The service is being started. -/
def startReporting : List (Move Call World) :=
  [.arrive (.start "a.service" .replace), .calls { reportingMachine with spawn := fun _ ↦ .ok 7 } 3,
    .calls reportingMachine 20]

def reportingStarted : Shown (recordsJobs · · ·) fun a ↦
    a.state.nextJob = 1 && (a.state.jobs.get 1).isSome :=
  .play _ reportingMachine startReporting _ (by decide +kernel)

theorem jobs_accounted_starting : ∃ a, Reaches (recordsJobs · · ·) a ∧ JobsAccounted a.state ∧
    (a.state.nextJob = 1 && (a.state.jobs.get 1).isSome) = true :=
  ⟨_, reportingStarted.reached, jobs_accounted reportingStarted.reached, reportingStarted.shows⟩

/-- The service is restarted before it is up. -/
def restartedBeforeReady : Shown (noReload · · ·) fun a ↦ a.todo.isEmpty &&
    decide (1 ≤ a.state.nextJob) && a.state.jobStatus [1] = [] :=
  .play _ reportingMachine
    (startReporting ++ [.arrive (.restart "a.service"), .calls reportingMachine 20]) _
    (by decide +kernel)

/-- A restart drops the start job, and nobody hears of it again. -/
theorem restart_drops_start_job : ¬ ∀ a, Reaches (noReload · · ·) a → JobsAccounted a.state := by
  intro h
  have hp := restartedBeforeReady.shows
  simp only [Bool.and_eq_true, decide_eq_true_eq] at hp
  obtain ⟨⟨-, hn⟩, hs⟩ := hp
  obtain ⟨s, hs', -⟩ := h _ restartedBeforeReady.reached 1 Nat.one_pos hn
  rw [hs] at hs'
  cases hs'

end Rystemd
