import Rystemd.Ipc

namespace Rystemd

open Json (null object toValue fromValue)

/-- The calls of the control interface, by the type of what they return. -/
inductive ControlCall : Type → Type
  | start (units : List String) : ControlCall PUnit
  | stop (units : List String) : ControlCall PUnit
  | restart (units : List String) : ControlCall PUnit
  | tryRestart (units : List String) : ControlCall PUnit
  | reload (units : List String) : ControlCall PUnit
  | resetFailed (units : List String) : ControlCall PUnit
  | clean (units : List String) : ControlCall (List String)
  | kill (unit signal : String) : ControlCall PUnit
  | reloadDaemon : ControlCall PUnit
  | isolate (unit : String) : ControlCall PUnit
  | setDefault (unit : String) : ControlCall PUnit
  | enable (units : List String) : ControlCall (List String)
  | disable (units : List String) : ControlCall (List String)
  | mask (units : List String) : ControlCall PUnit
  | unmask (units : List String) : ControlCall PUnit
  | reenable (units : List String) : ControlCall (List String)
  | listDependencies (unit : String) (reverse : Bool) : ControlCall (List String)
  | status (units : List String) : ControlCall (List UnitStatus)
  | listUnits (types : List String) (state : Option String) : ControlCall (List UnitSummary)
  | listTimers : ControlCall (List TimerInfo)
  | listUnitFiles : ControlCall (List UnitFileInfo)
  | isEnabled (units : List String) : ControlCall (List String)
  | isActive (units : List String) : ControlCall (List String)
  | getDefault : ControlCall String
  | repo : ControlCall RepoInfo
  | journal (unit : Option String) (since tail : Option UInt64) :
      ControlCall (List JournalRecord × String)

namespace ControlCall

variable {σ α : Type} (ops : ManagerOps σ)

/-- The calls on a manager in the same process. -/
def direct : ControlCall α → Action σ α
  | start units => (units.map normalizeUnit).forM (Ipc.unlessMasked ops ops.start)
  | stop units => (units.map normalizeUnit).forM ops.stop
  | restart units => (units.map normalizeUnit).forM ops.restart
  | tryRestart units => ops.tryRestartUnits (units.map normalizeUnit)
  | reload units => (units.map normalizeUnit).forM ops.reload
  | resetFailed units => ops.resetFailedUnits (units.map normalizeUnit)
  | clean units => ops.cleanUnits (units.map normalizeUnit)
  | kill unit signal => do
    let sig ← Ipc.okOr (sigFromName signal) s!"unknown signal `{signal}`"
    ops.kill (normalizeUnit unit) sig
  | reloadDaemon => do
    let errs ← ops.reloadAll
    if errs.isEmpty then return else throw ("; ".intercalate errs)
  | isolate unit => ops.isolate unit
  | setDefault unit => ops.setDefault unit
  | enable units => return (← (units.map normalizeUnit).mapM ops.enable).flatten
  | disable units => return (← (units.map normalizeUnit).mapM ops.disable).flatten
  | mask units => ops.maskUnits (units.map normalizeUnit)
  | unmask units => ops.unmaskUnits (units.map normalizeUnit)
  | reenable units => ops.reenableUnits (units.map normalizeUnit)
  | listDependencies unit reverse =>
    return ops.listDependencies (← get) (normalizeUnit unit) reverse
  | status units => do
    let s ← get
    return (ops.queryNames s (units.map normalizeUnit)).filterMap (ops.statusOf s)
  | listUnits types state => return ops.listUnitSummaries (← get) types state none
  | listTimers => return ops.listTimerInfo (← get)
  | listUnitFiles => return ops.listUnitFileInfo (← get)
  | isEnabled units => return (units.map normalizeUnit).map (ops.enabledState (← get))
  | isActive units => do
    let s ← get
    return (units.map normalizeUnit).map fun u ↦
      (ops.unit s u).elim "unknown" fun x ↦ activeStr x.active
  | getDefault => return ops.getDefault (← get)
  | repo => return ops.repoInfo (← get)
  | journal unit since tail => do
    let s ← get
    return (ops.journal s unit since tail, ops.journalDir s)

def unitsRequest (op : String) (units : List String) : Json :=
  object [("op", .str op), ("units", toValue (units.map normalizeUnit))]

def nameRequest (op name : String) : Json :=
  object [("op", .str op), ("name", .str (normalizeUnit name))]

def plainRequest (op : String) : Json := object [("op", .str op)]

/-- An entry that is left out when there is no value. -/
def entry {β : Type} [Serde β] (key : String) (b : Option β) : List (String × Json) :=
  b.toList.map fun b ↦ (key, toValue b)

/-- What a client of the socket sends. -/
def request : ControlCall α → Json
  | start units => unitsRequest "start" units
  | stop units => unitsRequest "stop" units
  | restart units => unitsRequest "restart" units
  | tryRestart units => unitsRequest "try_restart" units
  | reload units => unitsRequest "reload" units
  | resetFailed units => unitsRequest "reset_failed" units
  | clean units => unitsRequest "clean" units
  | kill unit signal => object [("op", .str "kill"), ("units", toValue [normalizeUnit unit]),
      ("signal", .str signal)]
  | reloadDaemon => plainRequest "daemon_reload"
  | isolate unit => nameRequest "isolate" unit
  | setDefault unit => nameRequest "set_default" unit
  | enable units => unitsRequest "enable" units
  | disable units => unitsRequest "disable" units
  | mask units => unitsRequest "mask" units
  | unmask units => unitsRequest "unmask" units
  | reenable units => unitsRequest "reenable" units
  | listDependencies unit reverse => object [("op", .str "list_dependencies"),
      ("name", .str (normalizeUnit unit)), ("reverse", .bool reverse)]
  | status units => unitsRequest "status" units
  | listUnits types state => object [("op", .str "list_units"), ("types", toValue types),
      ("state", toValue state), ("pattern", null)]
  | listTimers => plainRequest "list_timers"
  | listUnitFiles => plainRequest "list_unit_files"
  | isEnabled units => unitsRequest "is_enabled" units
  | isActive units => unitsRequest "is_active" units
  | getDefault => plainRequest "get_default"
  | repo => plainRequest "repo"
  | journal unit since tail =>
    object (("op", .str "journal") ::
      (entry "unit" unit ++ entry "since" since ++ entry "tail" tail))

section Answer

variable (mismatch : Json → String)

/-- `from_value`: the error of a value of another shape is serde's. -/
def decode (β : Type) [Serde β] (v : Json) : Except String β :=
  match fromValue v with
  | some b => pure b
  | none => throw (mismatch v)

def strVec (op : String) (v : Json) : Except String (List String) :=
  match v.asArray with
  | some vs => pure (vs.filterMap Json.asStr)
  | none => throw s!"failed to parse {op} result"

def strVecOrNone (v : Json) : List String := (v.asArray.getD []).filterMap Json.asStr

/-- What a client makes of the data of a response. -/
def answer : ControlCall α → Json → Except String α
  | start _, _ | stop _, _ | restart _, _ | tryRestart _, _ | reload _, _ | resetFailed _, _
  | kill _ _, _ | reloadDaemon, _ | isolate _, _ | setDefault _, _ | mask _, _ | unmask _, _ =>
    pure ()
  | clean _, v => strVec "clean" v
  | enable _, v | disable _, v => pure (strVecOrNone v)
  | reenable _, v => strVec "reenable" v
  | listDependencies _ _, v => strVec "list_dependencies" v
  | status _, v => decode mismatch (List UnitStatus) v
  | listUnits _ _, v => decode mismatch (List UnitSummary) v
  | listTimers, v => decode mismatch (List TimerInfo) v
  | listUnitFiles, v => decode mismatch (List UnitFileInfo) v
  | isEnabled _, v => decode mismatch (List String) v
  | isActive _, v =>
    pure ((((v.get "states").bind Json.asArray).getD []).filterMap fun x ↦
      (x.asArray.bind fun p ↦ p[1]?).bind Json.asStr)
  | getDefault, v => pure (v.asStr.getD "default.target")
  | repo, v => decode mismatch RepoInfo v
  | journal _ _ _, v => do
    let records ← decode mismatch (List JournalRecord) ((v.get "records").getD (.arr []))
    return (records, ((v.get "dir").bind Json.asStr).getD "")

end Answer

end ControlCall

/-- What a client takes from a response. -/
def readResponse (v : Json) : Except String Json :=
  if ((v.get "ok").bind Json.asBool).getD false then pure ((v.get "data").getD null)
  else throw (((v.get "error").bind Json.asStr).getD "unknown error")

/-- A call through the socket, as far as the values that are sent are concerned. -/
def ControlCall.viaSocket {σ α : Type} (ops : ManagerOps σ) (mismatch : Json → String)
    (call : ControlCall α) : Action σ α := fun s ↦
  let (response, s) := Ipc.respond ops call.request s
  ((readResponse response).bind (call.answer mismatch), s)

end Rystemd
