import Rystemd.ManagerOps

namespace Rystemd.Ipc

open Json (null object toValue)

/-- The operations of the control protocol. -/
inductive OpName
  | start | startIgnoreDependencies | stop | restart | tryRestart | restartOrStart | resetFailed
  | clean | listDependencies | reload | kill | status | isActive | isFailed | listUnits
  | listUnitFiles | listTimers | cat | «show» | daemonReload | daemonReexec | listJobs | jobStatus
  | logLevel | getDefault | repo | journal | setDefault | isolate | enable | disable | mask
  | unmask | reenable | isEnabled | isSystemRunning | shutdown
  deriving DecidableEq

def OpName.parse : String → Option OpName
  | "start" => some .start
  | "start_ignore_dependencies" => some .startIgnoreDependencies
  | "stop" => some .stop
  | "restart" => some .restart
  | "try_restart" => some .tryRestart
  | "restart_or_start" => some .restartOrStart
  | "reset_failed" => some .resetFailed
  | "clean" => some .clean
  | "list_dependencies" => some .listDependencies
  | "reload" => some .reload
  | "kill" => some .kill
  | "status" => some .status
  | "is_active" => some .isActive
  | "is_failed" => some .isFailed
  | "list_units" => some .listUnits
  | "list_unit_files" => some .listUnitFiles
  | "list_timers" => some .listTimers
  | "cat" => some .cat
  | "show" => some .show
  | "daemon_reload" => some .daemonReload
  | "daemon_reexec" => some .daemonReexec
  | "list_jobs" => some .listJobs
  | "job_status" => some .jobStatus
  | "log_level" => some .logLevel
  | "get_default" => some .getDefault
  | "repo" => some .repo
  | "journal" => some .journal
  | "set_default" => some .setDefault
  | "isolate" => some .isolate
  | "enable" => some .enable
  | "disable" => some .disable
  | "mask" => some .mask
  | "unmask" => some .unmask
  | "reenable" => some .reenable
  | "is_enabled" => some .isEnabled
  | "is_system_running" => some .isSystemRunning
  | "shutdown" => some .shutdown
  | _ => none

def reqStrings (req : Json) (key : String) : List String :=
  (((req.get key).bind Json.asArray).getD []).filterMap Json.asStr

def reqUnits (req : Json) : List Name := (reqStrings req "units").map normalizeUnit

def reqStr (req : Json) (key : String) : Option String := (req.get key).bind Json.asStr

def reqU64 (req : Json) (key : String) : Option UInt64 := (req.get key).bind Json.asU64

def reqJobMode (req : Json) : Except String JobMode :=
  match (reqStr req "job_mode").getD "replace" with
  | "replace" => pure .replace
  | "replace-irreversibly" => pure .replaceIrreversibly
  | mode => throw s!"unsupported job mode `{mode}`"

/-- The jobs of a request, as they are answered. -/
def jobsValue (jobs : List (Option UInt64)) : Json :=
  object [("jobs", toValue (jobs.filterMap id))]

def stateRank : String → Int
  | "failed" => 4
  | "inactive" => 3
  | _ => 0

section RunOp

variable {σ : Type} (ops : ManagerOps σ)

def okOr {α : Type} (a : Option α) (e : String) : Action σ α :=
  match a with
  | some a => pure a
  | none => throw e

/-- A start that is refused for a masked unit. -/
def unlessMasked {α : Type} (start : Name → Action σ α) (u : Name) : Action σ α := do
  if ops.isMasked (← get) u then throw s!"Unit {u} is masked." else start u

def activeStates (units : List Name) (s : σ) : Except String (List (Name × String)) :=
  units.mapM fun u ↦
    match ops.unit s u with
    | none => throw s!"Unit {u} not found."
    | some x => pure (u, activeStr x.active)

/-- Whether all units have failed; the first one that has not decides. -/
def allFailed (s : σ) : List Name → Except String Bool
  | [] => pure true
  | u :: us =>
    match ops.unit s u with
    | none => throw s!"Unit {u} not found."
    | some x => if x.active ≠ .failed then pure false else allFailed s us

def perform (req : Json) : OpName → Action σ Json
  | .start => do
    let mode ← reqJobMode req
    return jobsValue (← (reqUnits req).mapM (unlessMasked ops fun u ↦ ops.startWithMode u mode))
  | .startIgnoreDependencies => do
    (reqUnits req).forM (unlessMasked ops ops.startIgnoreDependencies)
    return null
  | .stop => do
    let mode ← reqJobMode req
    return jobsValue (← (reqUnits req).mapM fun u ↦ ops.stopWithMode u mode)
  | .restart => do
    (reqUnits req).forM ops.restart
    return null
  | .tryRestart => do
    ops.tryRestartUnits (reqUnits req)
    return null
  | .restartOrStart => do
    ops.restartOrStartUnits (reqUnits req)
    return null
  | .resetFailed => do
    ops.resetFailedUnits (reqUnits req)
    return null
  | .clean => do return toValue (← ops.cleanUnits (reqUnits req))
  | .listDependencies => do
    let name ← okOr (reqStr req "name") "list_dependencies: missing name"
    let reverse := ((req.get "reverse").bind Json.asBool).getD false
    return toValue (ops.listDependencies (← get) name reverse)
  | .reload => do
    (reqUnits req).forM ops.reload
    return null
  | .kill => do
    let u ← okOr (reqUnits req).head? "kill: no unit"
    ops.kill u (((reqStr req "signal").bind sigFromName).getD sigterm)
    return null
  | .status => do
    let s ← get
    return toValue ((ops.queryNames s (reqUnits req)).filterMap (ops.statusOf s))
  | .isActive => do
    let states ← activeStates ops (reqUnits req) (← get)
    let worst := ((states.map fun e ↦ stateRank e.2).max?).getD 0
    return object [("states", .arr (states.map fun e ↦ .arr [.str e.1, .str e.2])),
      ("exit", .num worst)]
  | .isFailed => do return .arr [.bool (← allFailed ops (← get) (reqUnits req))]
  | .listUnits => do
    return toValue (ops.listUnitSummaries (← get) (reqStrings req "types") (reqStr req "state")
      (reqStr req "pattern"))
  | .listUnitFiles => do return toValue (ops.listUnitFileInfo (← get))
  | .listTimers => do return toValue (ops.listTimerInfo (← get))
  | .cat => do return toValue (← ops.cat (← get) (reqUnits req))
  | .show => do return .arr (ops.show (← get) (reqUnits req) (reqStrings req "properties"))
  | .daemonReload => do
    let errs ← ops.reloadAll
    if errs.isEmpty then return null else throw ("; ".intercalate errs)
  | .daemonReexec => do return null
  | .listJobs => do return .arr ((ops.listJobs (← get)).map JobSummary.toValue)
  | .jobStatus => do
    let ids := ((((req.get "job_ids").bind Json.asArray).getD []).filterMap Json.asU64)
    return .arr ((ops.jobStatus (← get) ids).map JobStatus.toValue)
  | .logLevel => do
    (reqStr req "level").forM ops.setLogLevel
    return .str (ops.logLevel (← get))
  | .getDefault => do return .str (ops.getDefault (← get))
  | .repo => do return toValue (ops.repoInfo (← get))
  | .journal => do
    let s ← get
    return object [("records", toValue (ops.journal s (reqStr req "unit") (reqU64 req "since")
        (reqU64 req "tail"))), ("dir", .str (ops.journalDir s))]
  | .setDefault => do
    let name ← okOr (reqStr req "name") "set_default: missing name"
    ops.setDefault name
    return null
  | .isolate => do
    let name ← okOr (reqStr req "name") "isolate: missing name"
    ops.isolate name
    return null
  | .enable => do return toValue (← (reqUnits req).mapM ops.enable).flatten
  | .disable => do return toValue (← (reqUnits req).mapM ops.disable).flatten
  | .mask => do
    ops.maskUnits (reqUnits req)
    return null
  | .unmask => do
    ops.unmaskUnits (reqUnits req)
    return null
  | .reenable => do return toValue (← ops.reenableUnits (reqUnits req))
  | .isEnabled => do return toValue ((reqUnits req).map (ops.enabledState (← get)))
  | .isSystemRunning => do
    let degraded := (ops.units (← get)).any fun e ↦ e.2.active = .failed
    return object [("running", .bool !degraded), ("degraded", .bool degraded)]
  | .shutdown => do
    modify ops.shutdown
    return null

def runOp (op : Option String) (req : Json) : Action σ Json :=
  match op with
  | none => throw "missing op"
  | some op =>
    match OpName.parse op with
    | none => throw s!"unknown op `{op}`"
    | some name => perform ops req name

/-- The response to a request, and the manager after it. -/
def respond (req : Json) (s : σ) : Json × σ :=
  match runOp ops ((req.get "op").bind Json.asStr) req s with
  | (.ok d, s) => (object [("ok", .bool true), ("data", d)], s)
  | (.error e, s) => (object [("ok", .bool false), ("error", .str e)], s)

/-- Dispatch one request line, as the text is read by `fromStr`. -/
def dispatch (fromStr : String → Except String Json) (line : String) (s : σ) : Json × σ :=
  match fromStr line with
  | .ok req => respond ops req s
  | .error e => (object [("ok", .bool false), ("error", .str s!"bad request: {e}")], s)

end RunOp

end Rystemd.Ipc
