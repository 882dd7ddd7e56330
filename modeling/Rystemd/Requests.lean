import Rystemd.JobEngine
import Rystemd.Timers

namespace Rystemd.Manager

variable (w : World)

/-- What a start returns: an error message, or the id of the job that carries it out. -/
abbrev StartReply := Except String (Option JobId)

/-- What another request returns; the job id that a stop returns is left out. -/
abbrev Reply := Except String PUnit.{1}

def notFound (name : Name) : String := s!"Unit {name} not found."

/-- `start_with_mode`; `none` where the source crashes. -/
def startWithMode (m : Manager) (name : Name) (mode : JobMode) : Option (StartReply × Out) :=
  match m.ensureUnitLoaded w name with
  | .error e => some (.error e, m, [])
  | .ok m =>
    if m.shuttingDown then some (.ok none, m, [])
    else if !m.units.contains name then some (.error (notFound name), m, [])
    else if m.unitActive name then some (.ok none, m, [])
    else
      match m.jobOf name with
      | some (jid, job) =>
        if job.kind = .start then some (.ok (some jid), m, [])
        else if job.mode = .replaceIrreversibly then
          some (.error s!"Job for {name} is irreversible.", m, [])
        else some (.ok none,
          (m.cancelJob w jid "Job canceled by a replacement start.").andThen [.revive name])
      | none =>
        (m.enqueueStartJobMode w name mode).map fun r ↦
          (.ok (some (m.nextJob + 1)), r.andThen [.processJobs])

/-- The end of a start that cancelled a stop job. -/
def revive (m : Manager) (name : Name) : Option Out := do
  let _ ← m.units.get name
  return (m.setActive w name .active .exited .success, [])

/-- Forget the job of a unit and every wait for the unit. -/
def dropJob (m : Manager) (name : Name) : Manager :=
  match m.unitJob.get name with
  | none => m
  | some jid => { m with
      unitJob := m.unitJob.remove name
      jobs := (m.jobs.remove jid).mapValues (withoutWait name) }

def startIgnoreDependencies (m : Manager) (name : Name) : Reply × Out :=
  if !m.units.contains name then (.error (notFound name), m, [])
  else if m.unitActive name then (.ok ⟨⟩, m, [])
  else
    let r := (m.dropJob name).newJob .start name .replace none
    (.ok ⟨⟩, r.2, [.maybeStartJob r.1, .processJobs])

def stopWithMode (m : Manager) (name : Name) (mode : JobMode) : Reply × Out :=
  if !m.units.contains name then (.error (notFound name), m, [])
  else if !m.unitOperational name then (.ok ⟨⟩, m, [])
  else
    match m.jobOf name with
    | none => (.ok ⟨⟩, (m.enqueueStopJobAfterMode w name none mode).andThen [.processJobs])
    | some (jid, job) =>
      if job.kind = .start then (.ok ⟨⟩,
        (m.cancelJob w jid "Job canceled by a replacement stop.").andThen
          [.enqueueStop name mode, .processJobs])
      else (.ok ⟨⟩,
        if mode = .replaceIrreversibly then m.modifyJob jid fun job ↦ { job with mode } else m, [])

/-- What `restart` does with the job of the unit before it enqueues a stop job. -/
def dropStartJob (m : Manager) (name : Name) : Manager :=
  match m.jobOf name with
  | none => m
  | some (jid, job) =>
    if job.kind = .start then
      { m with unitJob := m.unitJob.remove name, jobs := m.jobs.remove jid }
    else m

def restart (m : Manager) (name : Name) : Option (Reply × Out) :=
  match m.units.get name with
  | none => some (.error (notFound name), m, [])
  | some u =>
    if m.unitOperational name then
      if (m.jobOf name).any fun j ↦ j.2.kind = .restart then some (.ok ⟨⟩, m, [])
      else
        let r := (m.dropStartJob name).enqueueStopJobAfterMode w name (some name) .replace
        some (.ok ⟨⟩, r.andThen (.processJobs ::
          if u.kind = .socket then [.restartActivated u.activatedService] else []))
    else (m.startWithMode w name .replace).map fun r ↦ (r.1.map fun _ ↦ ⟨⟩, r.2)

/-- The end of the restart of a socket unit. -/
def restartActivated (m : Manager) (service : Name) : Option Out :=
  if m.unitOperational service then (m.restart w service).map Prod.snd else some (m, [])

def tryRestart (m : Manager) (name : Name) : Option Out :=
  if m.unitOperational name then (m.restart w name).map Prod.snd else some (m, [])

def restartOrStart (m : Manager) (name : Name) : Option Out :=
  if m.unitOperational name then (m.restart w name).map Prod.snd
  else (m.startWithMode w name .replace).map Prod.snd

def reload (m : Manager) (name : Name) : Option Out :=
  match m.units.get name with
  | none => some (m, [])
  | some u =>
    if u.serviceCfg.any fun sc ↦ !sc.execReload.isEmpty then m.spawnControl w name .reload 0
    else some (m, [])

/-- `kill`; it indexes `units`, so an unknown name crashes it. -/
def kill (m : Manager) (name : Name) (sig : Signal) : Option Out := do
  let u ← m.units.get name
  return (if hasProcesses w u then m.killTree name sig else m, [])

/-- `isolate` on a normalized name. The units that it stops stay loaded, so no stop fails. -/
def isolate (m : Manager) (name : Name) : Out :=
  let names := (w.orderNames m.units.keys).filter fun n ↦
    n ≠ name && (m.units.get n).any fun u ↦ u.active ≠ .inactive && u.kind = .service
  (m, names.map (.stop · .replace) ++ [.start name .replace])

def resetFailed (m : Manager) (name : Name) : Manager :=
  if (m.units.get name).any fun u ↦ u.active = .failed then
    m.modifyUnit name fun u ↦ { u with active := .inactive, sub := .dead, result := .success }
  else m

def shutdown (m : Manager) : Out :=
  if m.shuttingDown then (m, [])
  else
    let names := (w.orderNames m.units.keys).filter fun n ↦
      (m.units.get n).any fun u ↦ u.active ≠ .inactive
    ({ m with shuttingDown := true, wheel := {} },
      names.map (.stop · .replace) ++ [.processJobs])

def idle (m : Manager) : Bool := m.jobs.keys.isEmpty && !m.wheel.hasServiceTimers

/-- The unit of a device, which is active at once. -/
def deviceUnit (name : Name) : Unit :=
  { Unit.new w.now name .device with load := .loaded, file := some {} }.setActive w.now
    .active .dead .success

def registerDevice (units : Table Name Unit) (name : Name) : Table Name Unit :=
  if units.contains name then units else units.insert name (deviceUnit w name)

/-- Register the units of a device that are not loaded yet. -/
def udevRegister (m : Manager) (device : Device) : Manager :=
  { m with
    udevDevices := m.udevDevices.insert device.devpath device
    units := device.unitNames.foldl (registerDevice w) m.units }

def udevRemove (m : Manager) (device : Device) : Manager :=
  { m with
    udevDevices := m.udevDevices.remove device.devpath
    units := device.unitNames.foldl Table.remove m.units }

/-- The runtime state that a reload keeps of a unit that is not inactive. -/
def keepRuntime (old : Unit) (u : Unit) : Unit :=
  { u with
    mainPid := old.mainPid, groupPid := old.groupPid, cgroup := old.cgroup
    controlPid := old.controlPid, controlCommand := old.controlCommand
    active := old.active, sub := old.sub }

/-- The unit that `load_all` puts in the new table under a discovered name. -/
def reloadUnit (m : Manager) (name : Name) : Option Unit :=
  match loadUnit w name with
  | .ok none => none
  | .ok (some u) => some (match m.units.get name with
      | some old => if old.active = .inactive then u else keepRuntime old u
      | none => u)
  | .error e => some { Unit.new w.now name (unitKindOf name) with load := .error, loadError := e }

/-- The new unit table of `load_all`, before the devices. -/
def reloadUnits (m : Manager) : Table Name Unit :=
  w.discovered.foldl (fun units n ↦ (m.reloadUnit w n).elim units fun u ↦ units.insert n u) .empty

def loadAll (m : Manager) : Option Manager :=
  let devices := m.udevDevices.keys.filterMap m.udevDevices.get
  (devices.foldl (udevRegister w) { m with units := m.reloadUnits w }).rearmAllTimers w

/-- The `LoadUnit` request of the bus. -/
def busLoadUnit (m : Manager) (name : Name) : Manager :=
  match m.ensureUnitLoaded w name with
  | .error _ => m
  | .ok m => m

/-- The unit that a notification is for. -/
def notifyTarget (m : Manager) (mainPid : Option Pid) : Option Name :=
  let candidates := (w.orderNames m.units.keys).filter fun n ↦ (m.units.get n).any fun u ↦
    u.serviceCfg.any (fun sc ↦ sc.serviceType = .notify) && u.operational
  match mainPid with
  | some pid => (candidates.find? fun c ↦ m.pidUnit.get pid = some c).or candidates.head?
  | none => candidates.head?

/-- A unit that was waited for is up. -/
def nowRunning (m : Manager) (name : Name) : Option Out :=
  if (m.units.get name).any fun u ↦ u.active = .activating then
    (m.setActive w name .active .running .success).completeStartJob w name
  else some (m, [])

def handleNotify (m : Manager) (ready : Bool) (mainPid : Option Pid) : Option Out :=
  match m.notifyTarget w mainPid with
  | none => some (m, [])
  | some name => if ready then m.nowRunning w name else some (m, [])

def nameAcquired (m : Manager) (busName : String) : Option Out :=
  match m.pendingBusNames.get busName with
  | none => some (m, [])
  | some name =>
    { m with pendingBusNames := m.pendingBusNames.remove busName }.nowRunning w name

def socketReady (m : Manager) (fd : Nat) : Out :=
  (m, ((m.socketTriggers.get fd).map fun t ↦ Call.start t.2 .replace).toList)

def tick (m : Manager) : Out :=
  let r := m.wheel.popDue w.now
  ({ m with wheel := r.2 },
    (r.1.map fun e ↦ .fireTimer e.unit e.kind) ++ [.pollPaths, .reap, .processJobs])

def reap (m : Manager) : Out := (m, w.reaped.map fun p ↦ .processExit p.1 p.2)

def fireServiceTimer (m : Manager) (name : Name) (kind : TimerKind) : Option Out :=
  match m.units.get name with
  | none => some (m, [])
  | some u =>
    match kind with
    | .restartDelay =>
      if u.sub = .autoRestart then (m.doStart w name).map (Out.andThen · [.processJobs])
      else some (m, [])
    | .startTimeout =>
      if u.active = .activating then
        some ((m.setResult name .timeout).killTreeKill name,
          [.failUnit name "start operation timed out"])
      else some (m, [])
    | .stopTimeout =>
      if u.active = .deactivating then (m.killTreeKill name).finalizeStop w name else some (m, [])
    | .calendarElapse _ | .monotonicElapse => some (m, [])

/-- What a timer unit remembers of its latest elapse. -/
def markTriggered (kind : TimerKind) (st : TimerState) : TimerState :=
  let st := { st with lastTrigger := some w.now }
  match kind with
  | .calendarElapse i => { st with lastTriggerCalendar := some (w.epoch, i) }
  | .monotonicElapse => { st with lastTriggerMonotonic := some w.now }
  | _ => st

def fireTimer (m : Manager) (name : Name) (kind : TimerKind) : Option Out :=
  match (m.units.get name).filter fun u ↦ u.kind = .timer with
  | none => m.fireServiceTimer w name kind
  | some u =>
    some (m.modifyUnit name fun u ↦ { u with timer := u.timer.map (markTriggered w kind) },
      [.start u.activatedUnit .replace, .rearmTimer name, .processJobs])

end Rystemd.Manager
