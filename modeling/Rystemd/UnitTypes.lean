import Rystemd.Processes

namespace Rystemd.Manager

variable (w : World)

/-- What `ServiceUnit::start` makes of the unit before it spawns anything. -/
def beginService (m : Manager) (name : Name) : Manager :=
  m.modifyUnit name fun u ↦
    { u with
      mainPid := none, groupPid := none, controlPid := none, controlCommand := none
      cmdIndex := 0, result := .success }.setActive w.now .activating .startPre .success

def startService (m : Manager) (name : Name) : Option Out :=
  match m.units.get name with
  | none => some (m, [])
  | some u =>
    let m := m.beginService w name
    if u.serviceCfg.any fun sc ↦ !sc.execStartPre.isEmpty then m.spawnControl w name .startPre 0
    else m.spawnControl w name .start 0

def stopSignal (u : Unit) : Signal := (u.serviceCfg.bind ServiceConfig.killSignal).getD sigterm

def stopService (m : Manager) (name : Name) : Option Out := do
  let u ← m.units.get name
  if hasProcesses w u then
    let m := (m.killTree name (stopSignal u)).modifyUnit name fun u ↦ { u with sub := .stopSigterm }
    return (m.armStopTimeout w name u, [])
  else if u.serviceCfg.all fun sc ↦ sc.execStop.isEmpty then m.finalizeStop w name
  else (m.modifyUnit name fun u ↦ { u with sub := .stop }).spawnControl w name .stop 0

/-- The start of a unit that is active as soon as it is started. -/
def startActive (m : Manager) (name : Name) (sub : SubState) : Option Out :=
  if m.units.contains name then (m.setActive w name .active sub .success).completeStartJob w name
  else some (m, [])

def startTarget (m : Manager) (name : Name) : Option Out := m.startActive w name .dead

def startTimer (m : Manager) (name : Name) : Option Out := m.startActive w name .dead

def startPath (m : Manager) (name : Name) : Option Out := m.startActive w name .dead

def startDevice (m : Manager) (name : Name) : Option Out := m.startActive w name .dead

/-- Bind the listeners in order. The first one that fails is the second component. -/
def bindListeners (name service : Name) : Nat → List (SocketType × String) → Manager →
    Manager × Option String
  | _, [], m => (m, none)
  | i, (type, spec) :: rest, m =>
    match w.bind i type spec with
    | .ok fd => bindListeners name service (i + 1) rest
        { m with socketTriggers := m.socketTriggers.insert fd (name, service) }
    | .error e => (m, some s!"Failed to bind socket {spec}: {e}")

def startSocket (m : Manager) (name : Name) : Option Out := do
  let u ← m.units.get name
  match u.socketCfg with
  | none => m.startActive w name .dead
  | some c =>
    if !m.socketActivation then m.startActive w name .dead
    else
      let r := bindListeners w name u.activatedService 0 c.listeners m
      match r.2 with
      | none => r.1.startActive w name .running
      | some msg => return (r.1.setResult name .resources, [.failUnit name msg])

def stopSocket (m : Manager) (name : Name) : Option Out :=
  { m with socketTriggers := m.socketTriggers.retain fun _ t ↦ t.1 ≠ name }.finalizeStop w name

/-- What is wrong with a mount unit before `mount(2)` is tried. -/
def mountError (u : Unit) : Option String :=
  match u.mountCfg with
  | none => some "missing [Mount] section"
  | some c =>
    if c.where_.all (·.isEmpty) then some "no Where= mount point"
    else if c.fsType.all (·.isEmpty) then some "no Type= filesystem type"
    else none

def mountPoint (u : Unit) : String := (u.mountCfg.bind MountConfig.where_).getD ""

def startMount (m : Manager) (name : Name) : Option Out := do
  let u ← m.units.get name
  match mountError u with
  | some msg => return (m, [.failUnit name msg])
  | none =>
    match w.mount with
    | none => (m.setActive w name .active .mounted .success).completeStartJob w name
    | some e => return (m.setResult name .resources,
        [.failUnit name s!"mount {mountPoint u} failed: {e}"])

def stopMount (m : Manager) (name : Name) : Option Out := do
  let u ← m.units.get name
  if (mountPoint u).isEmpty then m.finalizeStop w name
  else match w.unmount with
    | none => m.finalizeStop w name
    | some e => return (m.setResult name .resources,
        [.failUnit name s!"unmount {mountPoint u} failed: {e}"])

/-- The type of a unit. A name that is not loaded has the behaviour of a service. -/
def unitType (m : Manager) (name : Name) : UnitKind :=
  ((m.units.get name).map Unit.kind).getD .service

def doStart (m : Manager) (name : Name) : Option Out :=
  match m.unitType name with
  | .service => m.startService w name
  | .timer => m.startTimer w name
  | .target => m.startTarget w name
  | .path => m.startPath w name
  | .socket => m.startSocket w name
  | .device => m.startDevice w name
  | .mount => m.startMount w name

def doStop (m : Manager) (name : Name) : Option Out := do
  let u ← m.units.get name
  let m := m.setActive w name .deactivating .stop .success
  match u.kind with
  | .service => m.stopService w name
  | .timer | .target | .path | .device => m.finalizeStop w name
  | .socket => m.stopSocket w name
  | .mount => m.stopMount w name

end Rystemd.Manager
