import Rystemd.UnitTypes

namespace Rystemd.Manager

variable (w : World)

def setFailed (m : Manager) (id : JobId) (msg : String) : Manager :=
  m.modifyJob id fun job ↦ { job with failed := true, failedMsg := some msg }

def maybeStartJob (m : Manager) (id : JobId) : Option Out := do
  let job ← m.jobs.get id
  if job.failed then return m.finishJobFailed w id
  else if !job.waiting.isEmpty || job.started then return (m, [])
  else
    let u ← m.units.get job.unit
    let m := m.modifyJob id fun job ↦ { job with started := true }
    let limit := checkStartLimit w.now u
    let m := m.modifyUnit job.unit fun _ ↦ limit.2
    if limit.1 then
      let m := m.setResult job.unit .startLimitHit
      return (m.setFailed id "Start request repeated too quickly (start-limit-hit).").finishJobFailed w id
    else m.doStart w job.unit

def maybeStopJob (m : Manager) (id : JobId) : Option Out := do
  let job ← m.jobs.get id
  if !m.unitOperational job.unit then return m.finishJob w id
  else if job.started then return (m, [])
  else
    let m := { m with unitJob := m.unitJob.insert job.unit id }
    (m.modifyJob id fun job ↦ { job with started := true }).doStop w job.unit

/-- The wait entries for `Requisite=` units, or the first unit that is neither active nor
about to be. `none` where the source crashes. -/
def requisiteWaits (m : Manager) : List Name → List WaitEntry → Option (Except Name (List WaitEntry))
  | [], waiting => some (.ok waiting)
  | r :: rs, waiting =>
    if m.unitActive r then requisiteWaits m rs waiting
    else
      match m.jobKindOf r with
      | none => none
      | some (some .start) => requisiteWaits m rs (waiting ++ [⟨r, true⟩])
      | some _ => some (.error r)

/-- The order in which dependencies are opened: `Requires=` before `Wants=`. -/
def openList (needs weak : List Name) : List Name :=
  (needs ++ weak).foldl (fun acc d ↦ if d ∈ acc then acc else acc ++ [d]) []

/-- The part of `expand_start_job` after the conditions, up to its first nested call. -/
def expandOpening (m : Manager) (id : JobId) (name : Name) : Option Out := do
  let m := m.modifyJob id fun job ↦ { job with expanding := true }
  let (needs, weak, requisite) := startClosure m.units name
  match ← m.requisiteWaits requisite [] with
  | .error r =>
    return (m.setFailed id s!"Required unit {r} is not active (requisite).", [.maybeStartJob id])
  | .ok waiting =>
    return (m, (closureConflicts m.units name).map .stopConflict ++
      [.expandOpen id name needs waiting (openList needs weak)])

/-- `expand_start_job` up to its first nested call. -/
def expandStartJob (m : Manager) (id : JobId) (name : Name) : Option Out :=
  match m.units.get name with
  | none => some (m.setFailed id s!"Unit {name} not found.", [.maybeStartJob id])
  | some u =>
    match u.config.conditions.find? fun c ↦ !w.evaluate c with
    | none => m.expandOpening id name
    | some bad =>
      if bad.isAssert then
        some (m.setResult name .assert,
          [.failUnit name s!"Assert {bad.kind.name} failed, refusing to start."])
      else some (m.finishJob w id)

def enqueueStartJobMode (m : Manager) (name : Name) (mode : JobMode) : Option Out :=
  let r := m.newJob .start name mode none
  r.2.expandStartJob w r.1 name

/-- The loaded units that declare `Before=name`. -/
def beforeNames (m : Manager) (name : Name) : List Name :=
  (w.orderNames m.units.keys).filter fun other ↦
    other ≠ name && (m.units.get other).any fun o ↦ o.config.before.contains name

def waitsFor (waiting : List WaitEntry) (a : Name) : Bool := waiting.any fun e ↦ e.unit = a

/-- The wait entries for ordering only. The loop over `Before=` units looks at the entries
before it looks at the job, the loop over `After=` units does so after it. -/
def orderingWaits (m : Manager) (before : Bool) : List Name → List WaitEntry → Option (List WaitEntry)
  | [], waiting => some waiting
  | a :: as, waiting =>
    if m.unitActive a || before && waitsFor waiting a then orderingWaits m before as waiting
    else
      match m.jobKindOf a with
      | none => none
      | some (some .start) =>
        orderingWaits m before as (if waitsFor waiting a then waiting else waiting ++ [⟨a, false⟩])
      | some _ => orderingWaits m before as waiting

/-- A required dependency that finished during the expansion without becoming active. -/
def syncFailed (m : Manager) (waiting : List WaitEntry) : Option Name :=
  (waiting.find? fun e ↦ e.required && !m.unitJob.contains e.unit && !m.unitActive e.unit).map
    WaitEntry.unit

/-- Commit the wait list of a job. -/
def commitWaiting (m : Manager) (id : JobId) (waiting : List WaitEntry) : Manager :=
  m.modifyJob id fun job ↦
    let job := match m.syncFailed waiting with
      | none => job
      | some dep => { job with failed := true, failedMsg := some s!"Dependency failed: {dep}" }
    { job with waiting := waiting.filter fun e ↦ m.unitJob.contains e.unit, expanding := false }

/-- The end of `expand_start_job`, once every dependency is opened. -/
def expandFinish (m : Manager) (id : JobId) (name : Name) (waiting : List WaitEntry) : Option Out := do
  let u ← m.units.get name
  let waiting ← m.orderingWaits false u.config.after waiting
  let waiting ← m.orderingWaits true (m.beforeNames w name) waiting
  return (m.commitWaiting id waiting, [.maybeStartJob id])

/-- One dependency of the loop of `expand_start_job`, or its end. -/
def expandOpen (m : Manager) (id : JobId) (name : Name) (needs : List Name)
    (waiting : List WaitEntry) : List Name → Option Out
  | [] => m.expandFinish w id name waiting
  | d :: ds =>
    let required := decide (d ∈ needs)
    if m.unitActive d then some (m, [.expandOpen id name needs waiting ds])
    else if !m.units.contains d then
      if required then
        if m.jobs.contains id then
          some (m.setFailed id s!"Dependency failed: {d} (unit not found).", [.maybeStartJob id])
        else none
      else some (m, [.expandOpen id name needs waiting ds])
    else
      match m.jobKindOf d with
      | none => none
      | some (some .start) => some (m, [.expandOpen id name needs (waiting ++ [⟨d, required⟩]) ds])
      | some _ =>
        some (m, [.enqueueStartJob d, .expandOpen id name needs (waiting ++ [⟨d, required⟩]) ds])

def enqueueStopJobAfterMode (m : Manager) (name : Name) (startAfterStop : Option Name)
    (mode : JobMode) : Out :=
  let r := m.newJob .stop name mode startAfterStop
  (r.2, (stopPropagate m.units (w.orderNames m.units.keys) name).map .stopDependent ++
    [.maybeStopJob r.1])

def enqueueStopJob (m : Manager) (name : Name) : Out := m.enqueueStopJobAfterMode w name none .replace

/-- One round of the loop of `enqueue_stop_job_after_mode` over the dependents. -/
def stopDependent (m : Manager) (d : Name) : Out :=
  if m.unitOperational d && !m.unitJob.contains d then m.enqueueStopJob w d else (m, [])

/-- One round of the loop of `expand_start_job` over the conflicting units. -/
def stopConflict (m : Manager) (c : Name) : Option Out :=
  if !m.unitOperational c then some (m, [])
  else
    match m.jobKindOf c with
    | none => none
    | some kind => if kind = some .stop then some (m, []) else some (m.enqueueStopJob w c)

end Rystemd.Manager
