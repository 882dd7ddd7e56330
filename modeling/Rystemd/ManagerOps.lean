import Mathlib.Data.List.Infix
import Rystemd.Control

namespace Rystemd

/-- Append `.service` when a unit name has no type suffix. -/
def normalizeUnit (name : String) : String :=
  if '.' ∈ name.toList then name else name ++ ".service"

/-- `Signal::try_from`: the signals of Linux. -/
def signalOf (n : Int) : Option Signal := if 1 ≤ n ∧ n ≤ 31 then some n.toNat else none

def signalNumber : String → Option Signal
  | "HUP" => some 1
  | "INT" => some 2
  | "QUIT" => some 3
  | "ILL" => some 4
  | "TRAP" => some 5
  | "ABRT" => some 6
  | "BUS" => some 7
  | "FPE" => some 8
  | "KILL" => some 9
  | "USR1" => some 10
  | "SEGV" => some 11
  | "USR2" => some 12
  | "PIPE" => some 13
  | "ALRM" => some 14
  | "TERM" => some 15
  | "CHLD" => some 17
  | "CONT" => some 18
  | "STOP" => some 19
  | "TSTP" => some 20
  | "TTIN" => some 21
  | "TTOU" => some 22
  | "URG" => some 23
  | "XCPU" => some 24
  | "XFSZ" => some 25
  | "VTALRM" => some 26
  | "PROF" => some 27
  | "WINCH" => some 28
  | "IO" => some 29
  | "PWR" => some 30
  | "SYS" => some 31
  | _ => none

def sigFromName (s : String) : Option Signal :=
  let s := (Text.stripPrefix "SIG" s).getD s
  match Text.parseI32 s with
  | some n => signalOf n
  | none => (signalNumber (s.map Char.toUpper)).bind fun n ↦ signalOf n

def loadStr : LoadState → String
  | .loaded => "loaded"
  | .notFound => "not-found"
  | .error => "error"

def activeStr : ActiveState → String
  | .inactive => "inactive"
  | .activating => "activating"
  | .active => "active"
  | .deactivating => "deactivating"
  | .failed => "failed"

def SubState.asStr : SubState → String
  | .dead => "dead"
  | .startPre => "start-pre"
  | .start => "start"
  | .post => "post"
  | .running => "running"
  | .mounted => "mounted"
  | .exited => "exited"
  | .waitingForBus => "waiting-for-bus"
  | .stop => "stop"
  | .stopSigterm => "stop-sigterm"
  | .stopSigkill => "stop-sigkill"
  | .stopPost => "stop-post"
  | .finalSigterm => "final-sigterm"
  | .finalSigkill => "final-sigkill"
  | .autoRestart => "auto-restart"
  | .failed => "failed"

/-- A result as it is serialized. -/
def UnitResult.asStr : UnitResult → String
  | .success => "success"
  | .exitCode => "exit-code"
  | .signal => "signal"
  | .timeout => "timeout"
  | .startLimitHit => "start-limit-hit"
  | .dependency => "dependency"
  | .assert => "assert"
  | .resources => "resources"
  | .protocol => "protocol"
  | .watchdog => "watchdog"
  | .exec => "exec"
  | .user => "user"
  | .group => "group"
  | .unknown => "unknown"

/-- What the queries read of a timer: its next and its last elapse in seconds since the epoch. -/
structure TimerView where
  next : Option UInt64
  last : Option UInt64
  spec : List String

/-- What the queries read of a unit. -/
structure UnitView where
  kind : UnitKind
  load : LoadState
  active : ActiveState
  sub : SubState
  result : UnitResult
  description : String := ""
  mainPid : Option Int32 := none
  path : Option String := none
  activeEnter : Option UInt64 := none
  log : List String := []
  requires : List String := []
  wants : List String := []
  timer : Option TimerView := none
  activatedUnit : String := ""
  invocationId : String := ""
  nRestarts : UInt32 := 0
  restartDelay : String := "0"
  directories : List String := []

/-- A step of a manager that can fail; what it did before it failed stays done. -/
abbrev Action (σ : Type) := ExceptT String (StateM σ)

/-- Whether a step succeeds is kept, what it returns is not. -/
def Action.ignore {σ α : Type} (x : Action σ α) : Action σ PUnit := x >>= fun _ ↦ pure ()

/-- A manager and the machine that it runs on, in a state of type `σ`: what the control interface
needs of them. -/
structure ManagerOps (σ : Type) where
  units : σ → List (Name × UnitView)
  now : σ → UInt64
  isMasked : σ → Name → Bool
  enabledState : σ → Name → String
  dirDeps : σ → Name → String → List String
  unitFiles : σ → List (String × String)
  readText : σ → String → Except String String
  findUnit : σ → Name → Option String
  defaultLink : σ → Option String
  repoInfo : σ → RepoInfo
  journalUnits : σ → List Name
  journalRead : σ → Name → Option UInt64 → List JournalRecord
  journalDir : σ → String
  journalFiles : σ → List String
  listJobs : σ → List JobSummary
  jobStatus : σ → List UInt64 → List JobStatus
  logLevel : σ → String
  setLogLevel : String → Action σ PUnit
  startWithMode : Name → JobMode → Action σ (Option UInt64)
  startIgnoreDependencies : Name → Action σ PUnit
  stopWithMode : Name → JobMode → Action σ (Option UInt64)
  restart : Name → Action σ PUnit
  reload : Name → Action σ PUnit
  kill : Name → Signal → Action σ PUnit
  shutdown : σ → σ
  loadAll : σ → List String × σ
  clearFailed : Name → σ → σ
  enable : Name → Action σ (List String)
  disable : Name → Action σ (List String)
  mask : Name → Action σ PUnit
  unmask : Name → Action σ PUnit
  linkDefault : String → Action σ PUnit
  removeDir : String → σ → σ
  removeSegment : String → σ → σ

namespace ManagerOps

variable {σ : Type} (ops : ManagerOps σ)

def unit (s : σ) (name : Name) : Option UnitView :=
  ((ops.units s).find? fun e ↦ e.1 = name).map Prod.snd

def sorted (names : List String) : List String := names.mergeSort fun a b ↦ decide (a ≤ b)

def unitNames (s : σ) : List Name := (ops.units s).map Prod.fst

def statusOf (s : σ) (name : Name) : Option UnitStatus :=
  (ops.unit s name).map fun u ↦ {
    name := name
    description := u.description
    load := loadStr u.load
    active := activeStr u.active
    sub := u.sub.asStr
    result := u.result.asStr
    mainPid := u.mainPid
    path := u.path
    activeEnter := u.activeEnter
    log := u.log
    enabled := ops.enabledState s name }

/-- The names of the units that a filter lets pass, in order. -/
def namesOf (s : σ) (p : UnitView → Bool) : List Name :=
  sorted (((ops.units s).filter fun e ↦ p e.2).map Prod.fst)

def summaryOf (s : σ) (types : List String) (state pattern : Option String) (n : Name) :
    Option UnitSummary :=
  (ops.unit s n).bind fun u ↦
    if pattern.any fun p ↦ ¬ p.toList <:+: n.toList ∧ ¬ p.toList <:+: u.description.toList then
      none
    else if types ≠ [] ∧ ¬ types.any fun t ↦ ('.' :: t.toList).isSuffixOf n.toList then none
    else if state.any (· ≠ activeStr u.active) then none
    else some {
      unit := n
      loaded := loadStr u.load
      active := activeStr u.active
      sub := u.sub.asStr
      description := u.description }

def listUnitSummaries (s : σ) (types : List String) (state pattern : Option String) :
    List UnitSummary :=
  (ops.namesOf s fun u ↦ u.load = .loaded).filterMap (ops.summaryOf s types state pattern)

/-- The difference of two times, which is 0 when the first one comes first. -/
def saturatingSub (a b : UInt64) : Int64 := Int64.ofInt (a.toNat - b.toNat : Nat)

def listTimerInfo (s : σ) : List TimerInfo :=
  (ops.namesOf s fun u ↦ u.kind = .timer ∧ u.load = .loaded).filterMap fun n ↦
    (ops.unit s n).bind fun u ↦ u.timer.map fun t ↦ {
      unit := n
      activates := u.activatedUnit
      next := t.next
      nextLeft := t.next.map fun e ↦ saturatingSub e (ops.now s)
      last := t.last
      lastPassed := t.last.map fun e ↦ saturatingSub (ops.now s) e
      spec := t.spec }

def listUnitFileInfo (s : σ) : List UnitFileInfo :=
  let listed := (ops.unitFiles s).filter fun e ↦
    [".service", ".timer", ".target", ".socket"].any fun t ↦ t.toList.isSuffixOf e.1.toList
  (listed.map fun e ↦ { file := e.1, path := e.2, state := ops.enabledState s e.1 }).mergeSort
    fun a b ↦ decide (a.file ≤ b.file)

def cat (s : σ) (units : List Name) : Except String (List CatEntry) :=
  units.mapM fun u ↦
    match ops.unit s u with
    | none => throw s!"Unit {u} not found."
    | some x =>
      match x.path with
      | none => pure { unit := u, path := "(synthesized)", text := "" }
      | some p => do return { unit := u, path := p, text := ← ops.readText s p }

def properties (s : σ) (n : Name) (u : UnitView) : List (String × Json) :=
  [("Id", .str n), ("LoadState", .str (loadStr u.load)), ("ActiveState", .str (activeStr u.active)),
    ("SubState", .str u.sub.asStr), ("MainPID", Json.toValue (u.mainPid.getD 0)),
    ("Description", .str u.description), ("UnitFileState", .str (ops.enabledState s n)),
    ("ActiveEnterTimestamp", .str ((u.activeEnter.map fun t ↦ t.toNat.repr).getD "")),
    ("InvocationID", .str u.invocationId), ("NRestarts", .num u.nRestarts.toNat),
    ("RestartRandomizedDelayUSec", .str u.restartDelay)]

/-- The units that a query is about: all of them when none is named. -/
def queryNames (s : σ) (units : List Name) : List Name :=
  if units.isEmpty then sorted (ops.unitNames s) else units

def «show» (s : σ) (units : List Name) (props : List String) : List Json :=
  (ops.queryNames s units).filterMap fun n ↦ (ops.unit s n).map fun u ↦
    .object ((ops.properties s n u).filter fun e ↦ props.isEmpty ∨ e.1 ∈ props)

def getDefault (s : σ) : String := (ops.defaultLink s).getD "default.target"

def start (name : Name) : Action σ PUnit := (ops.startWithMode name .replace).ignore

def stop (name : Name) : Action σ PUnit := (ops.stopWithMode name .replace).ignore

/-- Point `default.target` at `name` and start it. -/
def setDefault (name : Name) : Action σ PUnit := do
  match ops.findUnit (← get) name with
  | none => throw s!"unit {name} not found"
  | some link =>
    ops.linkDefault link
    tryCatch (ops.start name) fun _ ↦ pure ()

/-- Stop every service that is not inactive, then start `name`. -/
def isolate (name : Name) : Action σ PUnit := do
  let name := normalizeUnit name
  let running := (ops.units (← get)).filter fun e ↦
    e.1 ≠ name ∧ e.2.active ≠ .inactive ∧ e.2.kind = .service
  running.forM fun e ↦ ops.stop e.1
  ops.start name

/-- Whether a unit is one that a conditional restart restarts. -/
def isUp (s : σ) (name : Name) : Bool :=
  (ops.unit s name).any fun u ↦ u.active = .active ∨ u.active = .activating

def tryRestartUnits (names : List Name) : Action σ PUnit :=
  names.forM fun name ↦ do
    if ops.isUp (← get) name then ops.restart name

def restartOrStartUnits (names : List Name) : Action σ PUnit :=
  names.forM fun name ↦ do
    if ops.isUp (← get) name then ops.restart name else ops.start name

def resetFailedUnits (names : List Name) : Action σ PUnit :=
  names.forM fun name ↦ do
    match ops.unit (← get) name with
    | none => throw s!"Unit {name} not found."
    | some u => if u.active = .failed then modify (ops.clearFailed name)

/-- What a unit requires and wants, in its file and by links. -/
def depsOf (s : σ) (n : Name) : List Name :=
  (((ops.unit s n).elim [] fun u ↦ u.requires ++ u.wants) ++ ops.dirDeps s n "wants" ++
    ops.dirDeps s n "requires").map normalizeUnit

def listDependencies (s : σ) (name : Name) (reverse : Bool) : List Name :=
  let name := normalizeUnit name
  sorted (if reverse then (ops.unitNames s).filter fun n ↦ name ∈ ops.depsOf s n
    else (ops.depsOf s name).dedup)

def reloadAll : Action σ (List String) := do
  let (errs, s) := ops.loadAll (← get)
  set s
  return errs

def maskUnits (names : List Name) : Action σ PUnit := do
  names.forM fun name ↦ ops.mask (normalizeUnit name)
  ops.reloadAll.ignore

def unmaskUnits (names : List Name) : Action σ PUnit := do
  names.forM fun name ↦ ops.unmask (normalizeUnit name)
  ops.reloadAll.ignore

def reenableUnits (names : List Name) : Action σ (List String) := do
  let out ← names.mapM fun name ↦ do
    let off ← ops.disable (normalizeUnit name)
    let on ← ops.enable (normalizeUnit name)
    return off ++ on
  ops.reloadAll.ignore
  return out.flatten

/-- Whether a file of the journal directory belongs to a unit. -/
def isSegment (unit f : String) : Bool :=
  f = unit ∨ unit.toList <+: f.toList ∧ (f.toList.drop unit.length).head? = some '.'

def cleanUnit (name : Name) : Action σ String := do
  let unit := normalizeUnit name
  let dirs := (ops.unit (← get) unit).elim [] UnitView.directories
  dirs.forM fun d ↦ modify (ops.removeDir d)
  let segments := (ops.journalFiles (← get)).filter (isSegment unit)
  segments.forM fun f ↦ modify (ops.removeSegment f)
  return if dirs ≠ [] ∨ segments ≠ [] then s!"Cleaned runtime state of {unit}."
    else s!"Clean {unit}: nothing to clean."

def cleanUnits (names : List Name) : Action σ (List String) := names.mapM ops.cleanUnit

def journal (s : σ) (unit : Option Name) (since : Option UInt64) (tail : Option UInt64) :
    List JournalRecord :=
  let records := match unit with
    | some u => ops.journalRead s u since
    | none => (ops.journalUnits s).flatMap fun u ↦ ops.journalRead s u since
  let records := records.mergeSort fun a b ↦ decide (a.secs ≤ b.secs)
  match tail with
  | none => records
  | some n => (records.reverse.take n.toNat).reverse

end ManagerOps

end Rystemd
