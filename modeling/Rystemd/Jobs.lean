import Rystemd.Manager

namespace Rystemd.Manager

variable (w : World) (m : Manager)

/-- The jobs that `on_job_completed` goes through, one call for each. -/
def onJobCompleted (unit : Name) (ok : Bool) : List Call :=
  (w.orderJobs m.jobs.keys).map fun id ↦ .jobCompleted id unit ok

/-- The jobs that `poke_failed` goes through, one call for each. -/
def pokeFailed (name : Name) : List Call :=
  (w.orderJobs m.jobs.keys).map fun id ↦ .pokeFailedJob id name

def finishJob (id : JobId) : Out :=
  match m.jobs.get id with
  | none => (m, [])
  | some job =>
    let m' := (m.recordJobResult id true none).removeJob id job.unit
    (m', m'.onJobCompleted w job.unit true ++
      if job.kind = .stop then job.startAfterStop.toList.map .enqueueStartJob else [])

def finishJobFailed (id : JobId) : Out :=
  match m.jobs.get id with
  | none => (m, [])
  | some job =>
    let m' := (m.recordJobResult id false job.failedMsg).removeJob id job.unit
    (m', m'.onJobCompleted w job.unit false)

def cancelJob (id : JobId) (message : String) : Out :=
  match m.jobs.get id with
  | none => (m, [])
  | some job =>
    let m' := (m.recordJobResult id false (some message)).removeJob id job.unit
    (m', m'.onJobCompleted w job.unit false)

/-- `try_advance_job`: whether it did something, and what. -/
def tryAdvanceJob (id : JobId) : Bool × Out :=
  match m.jobs.get id with
  | none => (false, m, [])
  | some job =>
    match job.kind with
    | .start =>
      if job.expanding then (false, m, [])
      else if job.failed then (true, m.finishJobFailed w id)
      else if job.waiting.isEmpty && !job.started then (true, m, [.maybeStartJob id])
      else (false, m, [])
    | .stop => if !job.started then (true, m, [.maybeStopJob id]) else (false, m, [])
    | .restart => (false, m, [])

def processPass (ids : List JobId) (changed : Bool) : Out :=
  match ids with
  | [] => (m, if changed then [.processJobs] else [])
  | id :: ids =>
    let r := m.tryAdvanceJob w id
    r.2.andThen [.processPass ids (changed || r.1)]

def processJobs : Out := (m, [.processPass (w.orderJobs m.jobs.keys) false])

def dependencyFailed (unit : Name) (job : Job) : Job :=
  { job with failed := true, failedMsg := some s!"Dependency failed: {unit}" }

/-- Whether the first entry of the job for this unit is a required one. -/
def waitsRequired (job : Job) (unit : Name) : Bool :=
  (job.waiting.find? fun e ↦ e.unit = unit).any WaitEntry.required

def withoutWait (unit : Name) (job : Job) : Job :=
  { job with waiting := job.waiting.filter fun e ↦ e.unit ≠ unit }

/-- Drop the entries of a job for a unit, and advance the job if there were any. -/
def releaseWait (id : JobId) (job : Job) (unit : Name) : Out :=
  let m' := m.modifyJob id (withoutWait unit)
  if (withoutWait unit job).waiting.length = job.waiting.length then (m', [])
  else (m'.tryAdvanceJob w id).2

/-- One round of the loop of `on_job_completed`. -/
def jobCompleted (id : JobId) (unit : Name) (ok : Bool) : Out :=
  match m.jobs.get id with
  | none => (m, [])
  | some job =>
    if !ok && waitsRequired job unit then (m.modifyJob id (dependencyFailed unit), [])
    else m.releaseWait w id job unit

/-- One round of the loop of `poke_failed`. -/
def pokeFailedJob (id : JobId) (name : Name) : Out :=
  match m.jobs.get id with
  | none => (m, [])
  | some job =>
    if waitsRequired job name then (m.modifyJob id (dependencyFailed name)).finishJobFailed w id
    else m.releaseWait w id job name

def jobStatusOf (id : JobId) : Option JobStatus :=
  match m.jobs.get id with
  | some job => some { id, unit := job.unit, state := "pending", ok := none, error := none }
  | none => m.completedJobs.get id

def jobStatus (ids : List JobId) : List JobStatus := ids.filterMap m.jobStatusOf

end Rystemd.Manager
