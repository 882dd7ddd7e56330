import Rystemd.Jobs

namespace Rystemd.Manager

variable (w : World)

def setActive (m : Manager) (name : Name) (state : ActiveState) (sub : SubState)
    (result : UnitResult) : Manager :=
  m.modifyUnit name (Unit.setActive w.now state sub result)

def setResult (m : Manager) (name : Name) (result : UnitResult) : Manager :=
  m.modifyUnit name fun u ↦ { u with result }

/-- Finish the job of a unit if it is of one of these kinds, and look at the timers again.
The source indexes `jobs` with the id that `unit_job` has. -/
def completeJob (m : Manager) (name : Name) (kinds : JobKind → Bool) : Option Out :=
  match m.unitJob.get name with
  | none => some (m, [.timerDepCheck])
  | some jid => do
    let job ← m.jobs.get jid
    return (if kinds job.kind then m.finishJob w jid else (m, [])).andThen [.timerDepCheck]

def completeStartJob (m : Manager) (name : Name) : Option Out :=
  m.completeJob w name (· = .start)

def finalizeStop (m : Manager) (name : Name) : Option Out := do
  let _ ← m.units.get name
  let m := (m.releaseBusNameWatch name).modifyUnit name (Unit.finalized w.now)
  m.completeJob w name fun kind ↦ kind = .stop || kind = .restart

def oneshotDone (m : Manager) (name : Name) : Option Out := do
  let u ← m.units.get name
  let s := u.exitedState
  (m.setActive w name s.1 s.2 .success).completeStartJob w name

def execSlice (sc : ServiceConfig) : ControlCommand → List ExecCommand
  | .startPre => sc.execStartPre
  | .start => sc.execStart
  | .startPost => sc.execStartPost
  | .stop => sc.execStop
  | .reload => sc.execReload
  | .kill => sc.execStart

/-- Record a new process of a unit. -/
def recordSpawn (m : Manager) (name : Name) (cmd : ControlCommand) (idx : Nat) (pid : Pid)
    (main : Bool) : Manager :=
  { m with
    pidUnit := m.pidUnit.insert pid name
    kernel :=
      { children := m.kernel.children.insert pid { unit := name, command := cmd, main }
        effects := .spawn name cmd idx pid :: m.kernel.effects }
    units := m.units.modify name fun u ↦
      if main then
        { u with mainPid := some pid, controlPid := none, controlCommand := none, groupPid := some pid }
      else { u with controlPid := some pid, controlCommand := some cmd, groupPid := some pid } }

def watchBusName (m : Manager) (name : Name) (busName : String) : Manager :=
  { m with pendingBusNames := m.pendingBusNames.insert busName name }

/-- `begin_bus_name_wait` and the `arm_start_timeout` that follows it. -/
def beginBusNameWait (m : Manager) (name : Name) (sc : ServiceConfig) : Out :=
  match sc.busName with
  | none => (m.setResult name .protocol,
      [.failUnit name "Type=dbus without BusName=", .armStartTimeout name])
  | some bn =>
    (((m.modifyUnit name fun u ↦ { u with sub := .waitingForBus }).watchBusName name bn).armTimeout w
      name .startTimeout sc.timeoutStartSec, [])

/-- What `spawn_control` does once the process of a unit runs. -/
def spawned (m : Manager) (name : Name) (sc : ServiceConfig) (cmd : ControlCommand) (idx : Nat)
    (pid : Pid) : Option Out :=
  let main := cmd = .start && sc.serviceType.tracksMain
  let m := m.recordSpawn name cmd idx pid main
  if main then
    if sc.serviceType.activeOnSpawn then
      (m.setActive w name .active .running .success).completeStartJob w name
    else if sc.serviceType = .dbus then some (m.beginBusNameWait w name sc)
    else some (m.armTimeout w name .startTimeout sc.timeoutStartSec, [])
  else
    let m := m.modifyUnit name fun u ↦
      if cmd = .start ∧ sc.serviceType ≠ .forking then { u with sub := .start } else u
    some (m.armTimeout w name .startTimeout sc.timeoutStartSec, [])

/-- Why a process cannot be spawned before it is tried: result and message. -/
def spawnRefused (sc : ServiceConfig) (cmd : ControlCommand) : Option (UnitResult × String) :=
  match sc.user.filter fun user ↦ !w.resolveUser user with
  | some user => some (.user, s!"User={user} could not be resolved")
  | none =>
    match sc.group.filter fun group ↦ !w.resolveGroup group with
    | some group => some (.group, s!"Group={group} could not be resolved")
    | none => if cmd = .start then w.applyDirectories.map fun e ↦ (.resources, e) else none

def ensureCgroup (m : Manager) (name : Name) : Manager :=
  m.modifyUnit name fun u ↦ { u with cgroup := u.cgroup.or w.cgroup }

/-- `spawn_control`; `done` is the `stage_done` of the command. -/
def spawnCommand (m : Manager) (name : Name) (cmd : ControlCommand) (idx : Nat)
    (done : Manager → Option Out) : Option Out := do
  let u ← m.units.get name
  match u.serviceCfg with
  | none => done m
  | some sc =>
    match (execSlice sc cmd)[idx]? with
    | none => done m
    | some exec =>
      match spawnRefused w sc cmd with
      | some (result, msg) => return (m.setResult name result, [.failUnit name msg])
      | none =>
        let m := m.ensureCgroup w name
        match w.spawn cmd with
        | .ok pid => m.spawned w name sc cmd idx pid
        | .error e =>
          if exec.ignoreFailure && cmd ≠ .stop then done m
          else return (m.setResult name .exec, [.failUnit name s!"Failed to execute: {e}"])

/-- `run_main_start`. -/
def runMainStart (m : Manager) (name : Name) (idx : Nat) : Option Out :=
  m.spawnCommand w name .start idx fun m ↦ m.oneshotDone w name

/-- `stage_done`. -/
def stageDone (m : Manager) (name : Name) : ControlCommand → Option Out
  | .startPre => m.runMainStart w name 0
  | .start => m.oneshotDone w name
  | .stop => m.finalizeStop w name
  | .reload | .startPost | .kill => some (m, [])

def spawnControl (m : Manager) (name : Name) (cmd : ControlCommand) (idx : Nat) : Option Out :=
  m.spawnCommand w name cmd idx fun m ↦ m.stageDone w name cmd

def runStartPostOrFinish (m : Manager) (name : Name) : Option Out := do
  let u ← m.units.get name
  if u.serviceCfg.any fun sc ↦ !sc.execStartPost.isEmpty then m.spawnControl w name .startPost 0
  else m.oneshotDone w name

/-- Take a process that is already there as the main process of a unit. -/
def adoptPid (m : Manager) (name : Name) (pid : Pid) : Manager :=
  { m.modifyUnit name fun u ↦ { u with mainPid := some pid } with
    pidUnit := m.pidUnit.insert pid name }

def readForkedPidfile (u : Unit) : Option Pid := (u.serviceCfg.bind ServiceConfig.pidFile).bind w.pidFile

def handleForkingStartDone (m : Manager) (name : Name) : Option Out := do
  let u ← m.units.get name
  let m := (readForkedPidfile w u).elim m fun pid ↦ m.adoptPid name pid
  (m.setActive w name .active .running .success).completeStartJob w name

/-- The rest of `handle_control_exit` when no stop is in progress; `u` is the unit before it. -/
def controlExited (m : Manager) (name : Name) (u : Unit) (exit : ChildExit) : Option Out :=
  let ignoreFailure := u.controlCommand = some .start &&
    (u.serviceCfg.bind fun sc ↦ sc.execStart[u.cmdIndex]?).any ExecCommand.ignoreFailure
  let ok := u.exitOk exit || ignoreFailure
  match u.controlCommand with
  | some .startPre =>
    if ok then m.runMainStart w name 0
    else some (m.setResult name .exitCode,
      [.failUnit name s!"ExecStartPre failed: {describeExit exit}"])
  | some .start =>
    match (u.serviceCfg.map ServiceConfig.serviceType).getD .simple with
    | .oneshot =>
      if ok then
        let next := u.cmdIndex + 1
        if u.serviceCfg.any fun sc ↦ next < sc.execStart.length then
          (m.modifyUnit name fun u ↦ { u with cmdIndex := next }).runMainStart w name next
        else (m.modifyUnit name fun u ↦ { u with cmdIndex := 0 }).runStartPostOrFinish w name
      else some (m.setResult name .exitCode,
        [.failUnit name s!"ExecStart failed: {describeExit exit}"])
    | .forking => m.handleForkingStartDone w name
    | _ => some (m, [.mainExit name exit])
  | some .startPost => m.oneshotDone w name
  | some .stop => m.finalizeStop w name
  | some .reload | some .kill => some (m, [])
  | none => some (m, [.mainExit name exit])

def hasStopJob (m : Manager) (name : Name) : Bool :=
  (m.jobOf name).any fun j ↦ j.2.kind = .stop

def forgetControl (m : Manager) (name : Name) : Manager :=
  m.modifyUnit name fun u ↦ { u with controlPid := none, groupPid := none, controlCommand := none }

def handleControlExit (m : Manager) (name : Name) (exit : ChildExit) : Option Out := do
  let u ← m.units.get name
  let m := m.forgetControl name
  if u.controlCommand = some .stop && !m.hasStopJob name then return (m, [])
  else if u.active = .deactivating then m.finalizeStop w name
  else m.controlExited w name u exit

/-- Kill what is left of the process group of a foreground service. -/
def sweepOrphanedGroup (m : Manager) (name : Name) (u : Unit) (pgid : Pid) : Manager :=
  m.addEffects <|
    if u.serviceCfg.any fun sc ↦ sc.serviceType ≠ .forking && w.groupAlive pgid &&
        sc.killMode = .controlGroup then [.killGroup name pgid sigkill] else []

def shouldRestart (policy : RestartPolicy) (exitOk : Bool) (exit : ChildExit) : Bool :=
  match policy with
  | .no | .onWatchdog => false
  | .always => true
  | .onSuccess => exitOk
  | .onFailure => !exitOk
  | .onAbnormal | .onAbort => exit.signal.isSome

def exitResult (exit : ChildExit) : UnitResult := if exit.signal.isSome then .signal else .exitCode

def scheduleRestart (m : Manager) (name : Name) (delay : Nat) : Manager :=
  { m.modifyUnit name fun u ↦
      { u.setActive w.now .activating .autoRestart .success with nRestarts := u.nRestarts + 1 } with
    wheel := m.wheel.schedule (w.now + delay) .restartDelay name }

def handleActiveExit (m : Manager) (name : Name) (exit : ChildExit) : Option Out := do
  let u ← m.units.get name
  if shouldRestart u.restartPolicy (u.exitOk exit) exit then
    let limit := checkStartLimit w.now u
    let m := m.modifyUnit name fun _ ↦ limit.2
    if limit.1 then
      let m := m.setActive w name .failed .failed .startLimitHit
      return (m, m.pokeFailed w name)
    else return (m.scheduleRestart w name u.restartDelay, [])
  else if u.exitOk exit then
    let s := u.exitedState
    let r ← (m.setActive w name s.1 s.2 .success).completeStartJob w name
    return r.andThen [.timerDepCheck]
  else
    let m := (m.setResult name (exitResult exit)).setActive w name .failed .failed (exitResult exit)
    return (m, m.pokeFailed w name ++ [.fireOnFailure name])

def forgetMain (m : Manager) (name : Name) : Manager :=
  m.modifyUnit name fun u ↦ { u with mainPid := none, groupPid := none }

def mainExit (m : Manager) (name : Name) (exit : ChildExit) : Option Out := do
  let u ← m.units.get name
  let m := m.forgetMain name
  match u.active with
  | .deactivating => (m.killTreeKill name).finalizeStop w name
  | .activating =>
    let m := m.releaseBusNameWatch name
    if u.exitOk exit then return (m.setActive w name .inactive .dead .success, [])
    else return (m.setResult name (exitResult exit), [.failUnit name (describeExit exit)])
  | .active =>
    let m := u.groupPid.elim m fun pgid ↦ m.sweepOrphanedGroup w name u pgid
    m.handleActiveExit w name exit
  | .inactive | .failed => m.handleActiveExit w name exit

def forgetPid (m : Manager) (pid : Pid) : Manager :=
  { m with
    pidUnit := m.pidUnit.remove pid
    kernel := { m.kernel with children := m.kernel.children.remove pid } }

/-- `handle_process_exit` for one reaped process. -/
def processExit (m : Manager) (pid : Pid) (exit : ChildExit) : Option Out :=
  let owner := m.pidUnit.get pid
  let m := m.forgetPid pid
  match owner with
  | none => some (m, [])
  | some name =>
    if (m.units.get name).any fun u ↦ u.kind = .target then some (m, [])
    else if (m.units.get name).any fun u ↦ u.controlPid = some pid then
      m.handleControlExit w name exit
    else some (m, [.mainExit name exit])

def fireOnFailure (m : Manager) (name : Name) : Option Out := do
  let u ← m.units.get name
  return (m, (u.config.onFailure.map fun t ↦ .start t .replace) ++ [.processJobs])

def failUnit (m : Manager) (name : Name) (msg : String) : Option Out := do
  let u ← m.units.get name
  let m := m.setActive w name .failed .failed u.result
  match m.unitJob.get name with
  | none => return (m, m.pokeFailed w name ++ [.fireOnFailure name])
  | some jid =>
    let job ← m.jobs.get jid
    if job.kind = .start then
      let m := m.modifyJob jid fun job ↦ { job with failedMsg := some msg }
      return (m.finishJobFailed w jid).andThen [.fireOnFailure name]
    else return (m, m.pokeFailed w name ++ [.fireOnFailure name])

end Rystemd.Manager
