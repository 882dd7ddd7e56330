import Rystemd.Library.Worklist
import Rystemd.Requests

namespace Rystemd

open Worklist

/-- The calls that clients, the kernel and the clock make. -/
def external : Call → Bool
  | .start .. | .startIgnoreDependencies _ | .stop .. | .restart _ | .tryRestart _
  | .restartOrStart _ | .reload _ | .kill .. | .isolate _ | .resetFailed _ | .shutdown
  | .loadAll | .loadUnit _ | .udevRegister _ | .udevRemove _ | .tick | .reap | .notify ..
  | .nameAcquired _ | .socketReady _ | .processJobs => true
  | _ => false

/-- Run one call. `none` stands for a panic, which aborts the process. -/
def exec (w : World) (c : Call) (m : Manager) : Option Out :=
  match c with
  | .start name mode => (m.startWithMode w name mode).map Prod.snd
  | .startIgnoreDependencies name => some (m.startIgnoreDependencies name).2
  | .stop name mode => some (m.stopWithMode w name mode).2
  | .enqueueStop name mode => some (m.enqueueStopJobAfterMode w name none mode)
  | .revive name => m.revive w name
  | .restart name => (m.restart w name).map Prod.snd
  | .restartActivated service => m.restartActivated w service
  | .tryRestart name => m.tryRestart w name
  | .restartOrStart name => m.restartOrStart w name
  | .reload name => m.reload w name
  | .kill name sig => m.kill w name sig
  | .isolate name => some (m.isolate w name)
  | .resetFailed name => some (m.resetFailed name, [])
  | .shutdown => some (m.shutdown w)
  | .loadAll => (m.loadAll w).map (·, [])
  | .loadUnit name => some (m.busLoadUnit w name, [])
  | .udevRegister device => some (m.udevRegister w device, [])
  | .udevRemove device => some (m.udevRemove device, [])
  | .tick => some (m.tick w)
  | .reap => some (m.reap w)
  | .pollPaths => some (m.pollPaths w)
  | .notify ready mainPid => m.handleNotify w ready mainPid
  | .nameAcquired busName => m.nameAcquired w busName
  | .socketReady fd => some (m.socketReady fd)
  | .enqueueStartJob name => m.enqueueStartJobMode w name .replace
  | .stopConflict name => m.stopConflict w name
  | .stopDependent name => some (m.stopDependent w name)
  | .expandOpen id name needs waiting open_ => m.expandOpen w id name needs waiting open_
  | .maybeStartJob id => m.maybeStartJob w id
  | .maybeStopJob id => m.maybeStopJob w id
  | .processJobs => some (m.processJobs w)
  | .processPass ids changed => some (m.processPass w ids changed)
  | .jobCompleted id unit ok => some (m.jobCompleted w id unit ok)
  | .pokeFailedJob id name => some (m.pokeFailedJob w id name)
  | .failUnit name msg => m.failUnit w name msg
  | .fireOnFailure name => m.fireOnFailure name
  | .armStartTimeout name => (m.units.get name).map fun u ↦ (m.armStartTimeout w name u, [])
  | .timerDepCheck => (m.timerDepCheck w).map (·, [])
  | .fireTimer unit kind => m.fireTimer w unit kind
  | .rearmTimer name => (m.rearmTimer w name).map (·, [])
  | .processExit pid exit => m.processExit w pid exit
  | .mainExit name exit => m.mainExit w name exit

/-- The kernel gives no process the pid of another one whose exit is not handled yet. -/
def freshPids (w : World) (_ : Call) (m : Manager) : Prop :=
  ∀ cmd pid, w.spawn cmd = .ok pid → m.kernel.children.get pid = none

def ControlCommand.all : List ControlCommand := [.startPre, .start, .startPost, .stop, .reload, .kill]

instance {w : World} {c : Call} {m : Manager} : Decidable (freshPids w c m) :=
  decidable_of_iff (∀ cmd ∈ ControlCommand.all,
      (w.spawn cmd).toOption.all fun pid ↦ (m.kernel.children.get pid).isNone) <| by
    constructor
    · intro h cmd pid hp
      have := h cmd (by cases cmd <;> simp [ControlCommand.all])
      simpa [hp, Except.toOption] using this
    · intro h cmd _
      cases hp : w.spawn cmd with
      | error e => rfl
      | ok pid => simp [Except.toOption, h cmd pid hp]

/-- The manager as a single-threaded program. -/
def engine : Engine Manager Call World where
  exec := exec
  admissible := freshPids
  external c := external c

instance {C : World → Call → Manager → Prop} [∀ w c m, Decidable (C w c m)] (w : World) (c : Call)
    (m : Manager) : Decidable (engine.admissible w c m ∧ C w c m) :=
  inferInstanceAs (Decidable (freshPids w c m ∧ C w c m))

instance : DecidablePred engine.external := fun c ↦ inferInstanceAs (Decidable (external c = true))

/-- The manager after its first `load_all`, before any request or event. -/
def Booted (m : Manager) : Prop :=
  ∃ w socketActivation bootInstant,
    Manager.loadAll w { socketActivation, bootInstant } = some m

/-- The configurations that a run reaches all of whose calls meet `C`. -/
def Reaches (C : World → Call → Manager → Prop) (a : Config Manager Call) : Prop :=
  ∃ m, Booted m ∧ Run engine C ⟨m, []⟩ a

/-- A machine with these unit files. -/
def World.ofFiles (files : List (Name × UnitFile)) : World where
  discovered := files.map Prod.fst
  unitFile name := .ok ((files.find? fun f ↦ f.1 = name).map Prod.snd)

/-- A configuration that a run reaches which is written down, and what it shows. -/
structure Shown (C : World → Call → Manager → Prop) (p : Config Manager Call → Bool) where
  config : Config Manager Call
  reached : Reaches C config
  shows : p config

/-- Play a run from the boot of a machine. -/
def Shown.play (C : World → Call → Manager → Prop) [∀ w c m, Decidable (C w c m)] (w : World)
    (moves : List (Move Call World)) (p : Config Manager Call → Bool)
    (h : (Manager.loadAll w {}).any fun m ↦ (play engine C moves ⟨m, []⟩).any p) : Shown C p :=
  match hm : Manager.loadAll w {} with
  | none => absurd h (by simp [hm])
  | some m =>
    match ha : Worklist.play engine C moves ⟨m, []⟩ with
    | none => absurd h (by simp [hm, ha])
    | some a => ⟨a, ⟨m, ⟨w, true, 0, hm⟩, play_run ha⟩, by simpa [hm, ha] using h⟩

/-- The runs without a daemon reload. -/
def noReload (_ : World) (c : Call) (_ : Manager) : Bool :=
  match c with
  | .loadAll => false
  | _ => true

end Rystemd
