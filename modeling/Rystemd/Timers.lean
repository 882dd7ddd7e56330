import Rystemd.Manager

namespace Rystemd.Manager

def minOf (a : Option Nat) (b : Nat) : Option Nat := some (a.elim b (min · b))

/-- The earliest calendar elapse and the index of its specification, the first one on a tie. -/
def nextCalendar (w : World) (specs : List CalendarSpec) : Option (Nat × Nat) :=
  specs.zipIdx.foldl (fun best (spec, i) ↦
    match w.nextElapse spec with
    | none => best
    | some epoch => if best.all (fun b ↦ epoch < b.1) then some (epoch, i) else best) none

def nextMonotonic (w : World) (m : Manager) (tc : TimerConfig) (target : Name) : Option Nat :=
  let add (base : Nat) (acc : Option Nat) (ts : TimeSpan) : Option Nat :=
    ts.asDuration.elim acc fun d ↦ minOf acc (base + d)
  let boot := (tc.onBootSec ++ tc.onStartupSec).foldl (add m.bootInstant) none
  match m.units.get target with
  | none => boot
  | some tu =>
    if tu.active = .active then tc.onActiveSec.foldl (add w.now) boot
    else if tu.activeEnter.isSome then tc.onInactiveSec.foldl (add w.now) boot
    else boot

/-- Microseconds in a second. -/
def second : Nat := 1000000

def armCalendar (w : World) (name : Name) (wheel : TimerWheel) : Option (Nat × Nat) → TimerWheel
  | none => wheel
  | some (epoch, i) =>
    wheel.schedule (w.now + max (epoch - w.epoch) 1 * second) (.calendarElapse i) name

/-- `rearm_timer`; it indexes `units`, so it crashes where there is no such unit. -/
def rearmTimer (w : World) (m : Manager) (name : Name) : Option Manager :=
  let wheel := m.wheel.cancelByUnit name
  if m.shuttingDown then some { m with wheel }
  else do
    let u ← m.units.get name
    match u.timerCfg with
    | none => return { m with wheel }
    | some tc =>
      let st := u.timer.getD { specStrings := tc.onCalendar }
      let calendar := nextCalendar w tc.onCalendar
      let wheel := armCalendar w name wheel calendar
      let display := calendar.map fun c ↦ c.1 * second
      let (wheel, display) :=
        match nextMonotonic w m tc u.activatedUnit with
        | some due =>
          if w.now ≤ due then
            (wheel.schedule due .monotonicElapse name,
              minOf display (w.epoch * second + (due - w.now)))
          else (wheel, display)
        | none => (wheel, display)
      return { m with
        wheel
        units := m.units.modify name fun u ↦ { u with timer := some { st with nextDisplay := display } } }

def timerNames (w : World) (m : Manager) : List Name :=
  (w.orderNames m.units.keys).filter fun n ↦ (m.units.get n).any fun u ↦ u.kind = .timer

def rearmTimers (w : World) (m : Manager) (names : List Name) : Option Manager :=
  names.foldlM (fun m n ↦ m.rearmTimer w n) m

def rearmAllTimers (w : World) (m : Manager) : Option Manager :=
  rearmTimers w { m with wheel := {} } (timerNames w m)

def timerDepCheck (w : World) (m : Manager) : Option Manager := rearmTimers w m (timerNames w m)

/-- `path_changed_triggered`: whether the path fires, and the new modification times. -/
def pathChangedTriggered (w : World) (armed : Table String (Option Nat)) (path : String) :
    Bool × Table String (Option Nat) :=
  match armed.get path, w.mtime path with
  | none, mt => (false, armed.insert path mt)
  | some none, some mt => (true, armed.insert path (some mt))
  | some (some prev), some mt => if prev = mt then (false, armed) else (true, armed.insert path (some mt))
  | some (some _), none => (false, armed.insert path none)
  | some none, none => (false, armed)

def pathsChanged (w : World) : List String → Table String (Option Nat) →
    Bool × Table String (Option Nat)
  | [], armed => (false, armed)
  | p :: ps, armed =>
    let r := pathChangedTriggered w armed p
    if r.1 then r else pathsChanged w ps r.2

def evalPathTriggers (w : World) (pc : PathConfig) (st : PathState) : Bool × PathState :=
  if pc.pathExists.any w.pathExists || pc.directoryNotEmpty.any w.directoryNotEmpty ||
      pc.pathExistsGlob.any w.matchesGlob then (true, st)
  else
    let r := pathsChanged w pc.pathChanged st.armedMtimes
    (r.1, { st with armedMtimes := r.2 })

/-- Evaluate one armed path unit whose target is quiescent or not. -/
def pollPath (w : World) (quiescent : Bool) (pc : PathConfig) (st : PathState) : Bool × PathState :=
  if quiescent then
    let r := evalPathTriggers w pc { st with triggered := false }
    (r.1, { r.2 with triggered := r.1 })
  else (false, st)

/-- A target that is neither active nor starting, or not loaded. -/
def quiescent (m : Manager) (target : Name) : Bool := !m.unitOperational target

def pollPaths (w : World) (m : Manager) : Out :=
  let step (acc : Table Name Unit × List Call) (name : Name) : Table Name Unit × List Call :=
    match m.units.get name with
    | none => acc
    | some u =>
      match u.pathCfg with
      | none => acc
      | some pc =>
        if u.kind = .path && u.active = .active then
          let r := pollPath w (m.quiescent u.activatedPathTarget) pc (u.pathState.getD {})
          (acc.1.modify name fun u ↦ { u with pathState := some r.2 },
            if r.1 then acc.2 ++ [.start u.activatedPathTarget .replace, .processJobs] else acc.2)
        else acc
  let r := (w.orderNames m.units.keys).foldl step (m.units, [])
  ({ m with units := r.1 }, r.2)

end Rystemd.Manager
