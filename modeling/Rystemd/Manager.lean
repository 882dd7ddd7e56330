import Rystemd.TimerWheel
import Rystemd.Dependencies

namespace Rystemd

abbrev JobId := Nat

inductive JobKind
  | start | stop | restart
  deriving DecidableEq

inductive JobMode
  | replace | replaceIrreversibly
  deriving DecidableEq

structure WaitEntry where
  unit : Name
  required : Bool
  deriving DecidableEq

structure Job where
  unit : Name
  kind : JobKind
  mode : JobMode
  waiting : List WaitEntry := []
  started : Bool := false
  failed : Bool := false
  failedMsg : Option String := none
  startAfterStop : Option Name := none
  expanding : Bool := false
  deriving DecidableEq

structure JobStatus where
  id : JobId
  unit : Name
  state : String
  ok : Option Bool
  error : Option String
  deriving DecidableEq

/-- A process that the manager spawned and whose exit it has not handled. -/
structure Child where
  unit : Name
  command : ControlCommand
  /-- Whether the manager took it as the main process of the unit. -/
  main : Bool
  deriving DecidableEq

/-- What the manager does to the outside. -/
inductive Effect
  | spawn (unit : Name) (command : ControlCommand) (index : Nat) (pid : Pid)
  | killCgroup (unit : Name) (dir : String) (sig : Signal)
  | killGroup (unit : Name) (group : Pid) (sig : Signal)
  deriving DecidableEq

/-- The kernel's side of the process bookkeeping; the code itself cannot read it.
`effects` has the latest effect first. -/
structure Kernel where
  children : Table Pid Child := .empty
  effects : List Effect := []

structure Device where
  devpath : String
  unitNames : List Name
  deriving DecidableEq

/-- The manager. Sockets, pipes, clients, the journal and the log are left out. -/
structure Manager where
  socketActivation : Bool := true
  bootInstant : Nat := 0
  units : Table Name Unit := .empty
  jobs : Table JobId Job := .empty
  completedJobs : Table JobId JobStatus := .empty
  unitJob : Table Name JobId := .empty
  nextJob : JobId := 0
  wheel : TimerWheel := {}
  pidUnit : Table Pid Name := .empty
  socketTriggers : Table Nat (Name × Name) := .empty
  pendingBusNames : Table String Name := .empty
  udevDevices : Table String Device := .empty
  shuttingDown : Bool := false
  kernel : Kernel := {}

/-- What the operating system and the iteration order of hash maps answer during one call. -/
structure World where
  now : Nat := 0
  orderJobs : List JobId → List JobId := id
  orderJobs_perm : ∀ l, (orderJobs l).Perm l := by intro l; exact .refl l
  orderNames : List Name → List Name := id
  orderNames_perm : ∀ l, (orderNames l).Perm l := by intro l; exact .refl l
  discovered : List Name := []
  unitFile : Name → Except String (Option UnitFile) := fun _ ↦ .ok none
  evaluate : Condition → Bool := fun _ ↦ true
  resolveUser : String → Bool := fun _ ↦ true
  resolveGroup : String → Bool := fun _ ↦ true
  applyDirectories : Option String := none
  cgroup : Option String := none
  cgroupEmpty : String → Bool := fun _ ↦ true
  groupAlive : Pid → Bool := fun _ ↦ false
  killGroupOk : Bool := true
  spawn : ControlCommand → Except String Pid := fun _ ↦ .error "no process"
  pidFile : String → Option Pid := fun _ ↦ none
  mount : Option String := none
  unmount : Option String := none
  /-- The outcomes of the binds of a start, by how many came before. -/
  bind : Nat → SocketType → String → Except String Nat := fun _ _ _ ↦ .error "no socket"
  nextElapse : CalendarSpec → Option Nat := fun _ ↦ none
  epoch : Nat := 0
  pathExists : String → Bool := fun _ ↦ false
  directoryNotEmpty : String → Bool := fun _ ↦ false
  matchesGlob : String → Bool := fun _ ↦ false
  mtime : String → Option Nat := fun _ ↦ none
  reaped : List (Pid × ChildExit) := []

/-- The procedures of the manager that other procedures run, or that requests and
events run. A procedure that continues after a nested one has a further call for the rest. -/
inductive Call
  | start (name : Name) (mode : JobMode)
  | startIgnoreDependencies (name : Name)
  | stop (name : Name) (mode : JobMode)
  | enqueueStop (name : Name) (mode : JobMode)
  | revive (name : Name)
  | restart (name : Name)
  | restartActivated (service : Name)
  | tryRestart (name : Name)
  | restartOrStart (name : Name)
  | reload (name : Name)
  | kill (name : Name) (sig : Signal)
  | isolate (name : Name)
  | resetFailed (name : Name)
  | shutdown
  | loadAll
  | loadUnit (name : Name)
  | udevRegister (device : Device)
  | udevRemove (device : Device)
  | tick
  | reap
  | pollPaths
  | notify (ready : Bool) (mainPid : Option Pid)
  | nameAcquired (busName : String)
  | socketReady (fd : Nat)
  | enqueueStartJob (name : Name)
  | stopConflict (name : Name)
  | stopDependent (name : Name)
  | expandOpen (id : JobId) (name : Name) (needs : List Name) (waiting : List WaitEntry)
      (open_ : List Name)
  | maybeStartJob (id : JobId)
  | maybeStopJob (id : JobId)
  | processJobs
  | processPass (ids : List JobId) (changed : Bool)
  | jobCompleted (id : JobId) (unit : Name) (ok : Bool)
  | pokeFailedJob (id : JobId) (name : Name)
  | failUnit (name : Name) (msg : String)
  | fireOnFailure (name : Name)
  | armStartTimeout (name : Name)
  | timerDepCheck
  | fireTimer (unit : Name) (kind : TimerKind)
  | rearmTimer (name : Name)
  | processExit (pid : Pid) (exit : ChildExit)
  | mainExit (name : Name) (exit : ChildExit)
  deriving DecidableEq

/-- The state after a procedure and the calls it still has to make. -/
abbrev Out := Manager × List Call

def Out.andThen (r : Out) (calls : List Call) : Out := (r.1, r.2 ++ calls)

namespace Manager

def modifyUnit (m : Manager) (name : Name) (f : Unit → Unit) : Manager :=
  { m with units := m.units.modify name f }

def modifyJob (m : Manager) (id : JobId) (f : Job → Job) : Manager :=
  { m with jobs := m.jobs.modify id f }

def unitActive (m : Manager) (name : Name) : Bool :=
  (m.units.get name).any fun u ↦ u.active = .active

def unitOperational (m : Manager) (name : Name) : Bool := (m.units.get name).any Unit.operational

/-- The job that `unit_job` and then `jobs` give for a unit, where the source uses `get`. -/
def jobOf (m : Manager) (name : Name) : Option (JobId × Job) :=
  (m.unitJob.get name).bind fun id ↦ (m.jobs.get id).map fun j ↦ (id, j)

/-- The kind of the job of a unit, where the source indexes `jobs`: a dangling id crashes. -/
def jobKindOf (m : Manager) (name : Name) : Option (Option JobKind) :=
  match m.unitJob.get name with
  | none => some none
  | some id => (m.jobs.get id).map fun j ↦ some j.kind

def newJob (m : Manager) (kind : JobKind) (unit : Name) (mode : JobMode)
    (startAfterStop : Option Name) : JobId × Manager :=
  let id := m.nextJob + 1
  (id, { m with
    nextJob := id
    jobs := m.jobs.insert id { unit, kind, mode, startAfterStop }
    unitJob := m.unitJob.insert unit id })

def recordJobResult (m : Manager) (id : JobId) (ok : Bool) (error : Option String) : Manager :=
  { m with completedJobs := (m.jobs.get id).elim m.completedJobs fun job ↦
      m.completedJobs.insert id { id, unit := job.unit, state := "done", ok := some ok, error } }

/-- Take the job out of `jobs`, and out of `unit_job` if it is the job of its unit. -/
def removeJob (m : Manager) (id : JobId) (unit : Name) : Manager :=
  { m with
    jobs := m.jobs.remove id
    unitJob := if m.unitJob.get unit = some id then m.unitJob.remove unit else m.unitJob }

/-- The signal that `kill_tree` sends: to the cgroup if there is one, else to the group. -/
def killEffect (m : Manager) (name : Name) (sig : Signal) : Option Effect :=
  match (m.units.get name).bind Unit.cgroup with
  | some dir => some (.killCgroup name dir sig)
  | none => ((m.units.get name).bind Unit.groupPid).map fun group ↦ .killGroup name group sig

def addEffects (m : Manager) (es : List Effect) : Manager :=
  { m with kernel := { m.kernel with effects := es ++ m.kernel.effects } }

def killTree (m : Manager) (name : Name) (sig : Signal) : Manager :=
  m.addEffects (m.killEffect name sig).toList

def killTreeKill (m : Manager) (name : Name) : Manager := m.killTree name sigkill

def releaseBusNameWatch (m : Manager) (name : Name) : Manager :=
  { m with pendingBusNames := m.pendingBusNames.retain fun _ u ↦ u ≠ name }

/-- The process tree of a loaded unit that there is to signal. -/
def hasProcesses (w : World) (u : Unit) : Bool :=
  u.mainPid.isSome || u.groupPid.isSome || u.cgroup.any fun dir ↦ !w.cgroupEmpty dir

def armTimeout (w : World) (m : Manager) (name : Name) (kind : TimerKind) (t : TimeSpan) : Manager :=
  { m with wheel := m.wheel.arm w.now name kind t }

def armStartTimeout (w : World) (m : Manager) (name : Name) (u : Unit) : Manager :=
  { m with wheel := u.serviceCfg.elim m.wheel fun sc ↦
      m.wheel.arm w.now name .startTimeout sc.timeoutStartSec }

def armStopTimeout (w : World) (m : Manager) (name : Name) (u : Unit) : Manager :=
  { m with wheel := u.serviceCfg.elim m.wheel fun sc ↦
      m.wheel.arm w.now name .stopTimeout sc.timeoutStopSec }

/-- Whether the start limit refuses one more start, and the unit with its new window. -/
def checkStartLimit (now : Nat) (u : Unit) : Bool × Unit :=
  let window := u.startWindow.filter fun t ↦ now ≤ t + 10000000
  if 5 ≤ window.length then (true, { u with startWindow := window })
  else (false, { u with startWindow := window ++ [now] })

/-- `load_unit`: the unit that a file, or the absence of one, gives. -/
def loadUnit (w : World) (name : Name) : Except String (Option Unit) :=
  match w.unitFile name with
  | .error e => .error e
  | .ok none => .ok none
  | .ok (some file) => .ok (some { Unit.new w.now name file.kind with load := .loaded, file := file })

def ensureUnitLoaded (w : World) (m : Manager) (name : Name) : Except String Manager :=
  if m.units.contains name then .ok m
  else match loadUnit w name with
    | .error e => .error e
    | .ok none => .error s!"Unit {name} not found."
    | .ok (some u) => .ok { m with units := m.units.insert name u }

end Manager

end Rystemd
