import Mathlib.Algebra.Ring.Int.Defs
import Mathlib.Data.List.DropRight
import Rystemd.Library.Table

namespace Rystemd

abbrev Name := String
abbrev Pid := Nat
abbrev Signal := Nat

def sigterm : Signal := 15
def sigkill : Signal := 9

/-- The `Display` of a signal, as it appears in failure messages. -/
def signalName : Signal → String
  | 1 => "SIGHUP"
  | 2 => "SIGINT"
  | 3 => "SIGQUIT"
  | 9 => "SIGKILL"
  | 15 => "SIGTERM"
  | 17 => "SIGCHLD"
  | n => toString n

/-- Microseconds; the greatest 64-bit value stands for `infinity`. -/
structure TimeSpan where
  usec : Nat
  deriving DecidableEq

def TimeSpan.infinity : TimeSpan := ⟨18446744073709551615⟩

def TimeSpan.asDuration (t : TimeSpan) : Option Nat :=
  if t = TimeSpan.infinity then none else some t.usec

inductive UnitKind
  | service | timer | target | path | socket | device | mount
  deriving DecidableEq

/-- The kind that the suffix of a name gives; a name without a known one is a service. -/
def unitKindOf (name : Name) : UnitKind :=
  match String.ofList (name.toList.rtakeWhile (· ≠ '.')), name.toList.contains '.' with
  | "timer", true => .timer
  | "target", true => .target
  | "path", true => .path
  | "socket", true => .socket
  | "device", true => .device
  | "mount", true => .mount
  | _, _ => .service

inductive ServiceType
  | simple | exec | oneshot | forking | notify | dbus | idle
  deriving DecidableEq

/-- The types whose `ExecStart=` process is the main process. -/
def ServiceType.tracksMain : ServiceType → Bool
  | .simple | .exec | .idle | .notify | .dbus => true
  | .oneshot | .forking => false

/-- The types that are active as soon as `ExecStart=` runs. -/
def ServiceType.activeOnSpawn : ServiceType → Bool
  | .simple | .exec | .idle => true
  | _ => false

inductive RestartPolicy
  | no | onSuccess | onFailure | onAbnormal | onAbort | onWatchdog | always
  deriving DecidableEq

inductive KillMode
  | controlGroup | process
  deriving DecidableEq

inductive ActiveState
  | inactive | activating | active | deactivating | failed
  deriving DecidableEq

inductive SubState
  | dead | startPre | start | post | running | mounted | exited | waitingForBus | stop
  | stopSigterm | stopSigkill | stopPost | finalSigterm | finalSigkill | autoRestart | failed
  deriving DecidableEq

inductive UnitResult
  | success | exitCode | signal | timeout | startLimitHit | dependency | assert | resources
  | protocol | watchdog | exec | user | group | unknown
  deriving DecidableEq

inductive LoadState
  | loaded | notFound | error
  deriving DecidableEq

inductive ControlCommand
  | startPre | start | startPost | stop | reload | kill
  deriving DecidableEq

inductive ChildExit
  | exited (code : Int)
  | signaled (sig : Signal)
  deriving DecidableEq

/-- The `signal` half of the pair that `reap` makes of a wait status. -/
def ChildExit.signal : ChildExit → Option Signal
  | .exited _ => none
  | .signaled s => some s

def ChildExit.code : ChildExit → Int
  | .exited c => c
  | .signaled _ => 0

def describeExit : ChildExit → String
  | .exited code => s!"exited with status {code}"
  | .signaled sig => s!"killed by signal {signalName sig}"

inductive ConditionKind
  | pathExists | fileNotEmpty | directoryNotEmpty | pathIsReadWrite | pathIsSymbolicLink
  | user | group | host
  deriving DecidableEq

def ConditionKind.name : ConditionKind → String
  | .pathExists => "PathExists"
  | .fileNotEmpty => "FileNotEmpty"
  | .directoryNotEmpty => "DirectoryNotEmpty"
  | .pathIsReadWrite => "PathIsReadWrite"
  | .pathIsSymbolicLink => "PathIsSymbolicLink"
  | .user => "User"
  | .group => "Group"
  | .host => "Host"

structure Condition where
  kind : ConditionKind
  value : String
  negate : Bool := false
  isAssert : Bool := false

structure ExecCommand where
  argv : List String
  ignoreFailure : Bool := false

structure ExitCodeSet where
  codes : List (Nat × Nat)
  signals : List Signal

def ExitCodeSet.defaultSuccess : ExitCodeSet := ⟨[(0, 0)], []⟩

/-- The source compares the code after a cast to `u32`. -/
def ExitCodeSet.accepts (s : ExitCodeSet) : ChildExit → Bool
  | .exited c =>
    s.codes.any (fun r ↦ r.1 ≤ (c % 2 ^ 32).toNat && (c % 2 ^ 32).toNat ≤ r.2) ||
      (s.codes.isEmpty && c == 0)
  | .signaled sig => s.signals.contains sig

structure ServiceConfig where
  serviceType : ServiceType := .simple
  remainAfterExit : Bool := false
  execStartPre : List ExecCommand := []
  execStart : List ExecCommand := []
  execStartPost : List ExecCommand := []
  execStop : List ExecCommand := []
  execReload : List ExecCommand := []
  restart : RestartPolicy := .no
  restartSec : TimeSpan := ⟨100000⟩
  timeoutStartSec : TimeSpan := ⟨90000000⟩
  timeoutStopSec : TimeSpan := ⟨90000000⟩
  user : Option String := none
  group : Option String := none
  killSignal : Option Signal := none
  killMode : KillMode := .controlGroup
  successExitStatus : Option ExitCodeSet := none
  pidFile : Option String := none
  busName : Option String := none

def ServiceConfig.effectiveExitSuccess (sc : ServiceConfig) : ExitCodeSet :=
  match sc.successExitStatus with
  | none => .defaultSuccess
  | some s => ⟨ExitCodeSet.defaultSuccess.codes ++ s.codes,
      ExitCodeSet.defaultSuccess.signals ++ s.signals⟩

/-- A calendar specification, as written. -/
abbrev CalendarSpec := String

structure TimerConfig where
  onCalendar : List CalendarSpec := []
  onBootSec : List TimeSpan := []
  onStartupSec : List TimeSpan := []
  onActiveSec : List TimeSpan := []
  onInactiveSec : List TimeSpan := []
  unit : Option Name := none

structure PathConfig where
  pathExists : List String := []
  pathExistsGlob : List String := []
  pathChanged : List String := []
  directoryNotEmpty : List String := []
  unit : Option Name := none

inductive SocketType
  | stream | datagram | netlink | sequentialPacket
  deriving DecidableEq

structure SocketConfig where
  listenStream : List String := []
  listenDatagram : List String := []
  listenNetlink : List String := []
  listenSequentialPacket : List String := []
  service : Option Name := none

/-- The listeners in the order in which `start_socket` binds them. -/
def SocketConfig.listeners (c : SocketConfig) : List (SocketType × String) :=
  c.listenStream.map (.stream, ·) ++ c.listenDatagram.map (.datagram, ·) ++
    c.listenNetlink.map (.netlink, ·) ++ c.listenSequentialPacket.map (.sequentialPacket, ·)

structure MountConfig where
  what : Option String := none
  where_ : Option String := none
  fsType : Option String := none
  options : Option String := none

structure UnitConfig where
  after : List Name := []
  before : List Name := []
  requires : List Name := []
  requisite : List Name := []
  wants : List Name := []
  conflicts : List Name := []
  onFailure : List Name := []
  bindsTo : List Name := []
  conditions : List Condition := []

structure UnitFile where
  unit : UnitConfig := {}
  service : Option ServiceConfig := none
  timer : Option TimerConfig := none
  pathUnit : Option PathConfig := none
  socket : Option SocketConfig := none
  mount : Option MountConfig := none

def UnitFile.kind (f : UnitFile) : UnitKind :=
  if f.service.isSome then .service
  else if f.timer.isSome then .timer
  else if f.pathUnit.isSome then .path
  else if f.socket.isSome then .socket
  else if f.mount.isSome then .mount
  else .target

structure TimerState where
  lastTrigger : Option Nat := none
  lastTriggerCalendar : Option (Nat × Nat) := none
  lastTriggerMonotonic : Option Nat := none
  nextDisplay : Option Nat := none
  specStrings : List String := []

structure PathState where
  armedMtimes : Table String (Option Nat) := .empty
  triggered : Bool := false

/-- The runtime state of a unit. Fields that the code only writes are left out. -/
structure Unit where
  name : Name
  kind : UnitKind
  file : Option UnitFile := none
  load : LoadState := .notFound
  loadError : Option String := none
  active : ActiveState := .inactive
  sub : SubState := .dead
  result : UnitResult := .success
  mainPid : Option Pid := none
  groupPid : Option Pid := none
  cgroup : Option String := none
  cmdIndex : Nat := 0
  controlPid : Option Pid := none
  controlCommand : Option ControlCommand := none
  activeEnter : Option Nat := none
  inactiveEnter : Option Nat := none
  nRestarts : Nat := 0
  startWindow : List Nat := []
  timer : Option TimerState := none
  pathState : Option PathState := none

namespace Unit

/-- `Unit::new` at time `now`. -/
def new (now : Nat) (name : Name) (kind : UnitKind) : Unit :=
  { name, kind, inactiveEnter := some now }

def config (u : Unit) : UnitConfig := (u.file.map UnitFile.unit).getD {}

def serviceCfg (u : Unit) : Option ServiceConfig := u.file.bind UnitFile.service

def timerCfg (u : Unit) : Option TimerConfig := u.file.bind UnitFile.timer

def pathCfg (u : Unit) : Option PathConfig := u.file.bind UnitFile.pathUnit

def socketCfg (u : Unit) : Option SocketConfig := u.file.bind UnitFile.socket

def mountCfg (u : Unit) : Option MountConfig := u.file.bind UnitFile.mount

/-- The name up to its last dot, with the suffix `.service`. -/
def sameStemService (name : Name) : Name :=
  let cs := name.toList
  let stem := if cs.contains '.' then (cs.rdropWhile (· ≠ '.')).dropLast else cs
  String.ofList stem ++ ".service"

def activatedUnit (u : Unit) : Name :=
  ((u.timerCfg.bind TimerConfig.unit)).getD (sameStemService u.name)

def activatedService (u : Unit) : Name :=
  ((u.socketCfg.bind SocketConfig.service)).getD (sameStemService u.name)

def activatedPathTarget (u : Unit) : Name :=
  ((u.pathCfg.bind PathConfig.unit)).getD (sameStemService u.name)

def setActive (now : Nat) (state : ActiveState) (sub : SubState) (result : UnitResult)
    (u : Unit) : Unit :=
  let u := { u with
    active := state
    sub := sub
    result := if result = .success then u.result else result }
  match state with
  | .activating => u
  | .active => { u with activeEnter := some now, inactiveEnter := none }
  | .inactive | .failed | .deactivating =>
    if u.activeEnter.isSome then { u with inactiveEnter := some now } else u

def operational (u : Unit) : Bool := u.active = .active || u.active = .activating

/-- A unit that waits for its automatic restart counts as activating. -/
def RestartOk (u : Unit) : Prop := u.sub = .autoRestart → u.active = .activating

/-- Whether a terminal status counts as success for this unit. -/
def exitOk (u : Unit) (exit : ChildExit) : Bool :=
  match u.serviceCfg with
  | some sc => sc.effectiveExitSuccess.accepts exit
  | none => exit.code == 0 && exit.signal.isNone

/-- Active for a unit with `RemainAfterExit=`, inactive for another. -/
def exitedState (u : Unit) : ActiveState × SubState :=
  if u.serviceCfg.any ServiceConfig.remainAfterExit then (.active, .exited) else (.inactive, .dead)

/-- What `finalize_stop` leaves of the unit. -/
def finalized (now : Nat) (u : Unit) : Unit :=
  { u with
    mainPid := none, groupPid := none, cgroup := none, controlPid := none
    controlCommand := none, cmdIndex := 0 }.setActive now .inactive .dead .success

/-- The unit less what only timers and paths look at. -/
def core (u : Unit) : Unit := { u with timer := none, pathState := none }

def restartPolicy (u : Unit) : RestartPolicy := (u.serviceCfg.map ServiceConfig.restart).getD .no

def restartDelay (u : Unit) : Nat := (u.serviceCfg.bind fun sc ↦ sc.restartSec.asDuration).getD 0

end Unit

end Rystemd
