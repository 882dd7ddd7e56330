import Rystemd.Library.History
import Rystemd.SentSignals

namespace Rystemd

open Worklist Manager

variable {w : World} {name n : Name} {m m' m'' : Manager} {out : Out} {cmd : ControlCommand}
  {idx : Nat} {P Q : Effect → Prop} {c : Call} {e : Effect}

/-- Between `m` and `m'` at most one process was spawned, and it is as `P` says. -/
def SpawnsOnce (P : Effect → Prop) (m m' : Manager) : Prop :=
  ∃ es, m'.kernel.effects = es ++ m.kernel.effects ∧
    (es.filter Effect.isSpawn = [] ∨ ∃ e, es.filter Effect.isSpawn = [e] ∧ P e)

/-- The unit is a service whose list for `cmd` has a command `idx`. -/
def Manager.lists (m : Manager) (name : Name) (cmd : ControlCommand) (idx : Nat) : Prop :=
  ∃ sc, (m.units.get name).bind Unit.serviceCfg = some sc ∧ idx < (execSlice sc cmd).length

/-- The effect is that a command which the unit lists was spawned. -/
def Runs (w : World) (m : Manager) (name : Name) (cmd : ControlCommand) (idx : Nat)
    (e : Effect) : Prop :=
  m.lists name cmd idx ∧ ∃ pid, w.spawn cmd = .ok pid ∧ e = .spawn name cmd idx pid

/-- The command that may follow the one of the control process of a unit. -/
def Unit.next (u : Unit) (cmd : ControlCommand) (idx : Nat) : Prop :=
  (u.controlCommand = some .startPre ∧ cmd = .start ∧ idx = 0) ∨
    (u.controlCommand = some .start ∧ cmd = .start ∧ idx = u.cmdIndex + 1) ∨
      (u.controlCommand = some .start ∧ cmd = .startPost ∧ idx = 0)

/-- The calls that spawn a process, and which one. -/
inductive Launches (w : World) (m : Manager) : Call → Effect → Prop
  | start {id : JobId} {job : Job} {cmd : ControlCommand} {e : Effect} :
      m.jobs.get id = some job → job.failed = false → job.waiting = [] → job.started = false →
      cmd = .startPre ∨ cmd = .start → Runs w m job.unit cmd 0 e → Launches w m (.maybeStartJob id) e
  | restart {name : Name} {u : Unit} {cmd : ControlCommand} {e : Effect} :
      m.units.get name = some u → u.sub = .autoRestart → cmd = .startPre ∨ cmd = .start →
      Runs w m name cmd 0 e → Launches w m (.fireTimer name .restartDelay) e
  | next {pid : Pid} {exit : ChildExit} {name : Name} {u : Unit} {cmd : ControlCommand} {idx : Nat}
      {e : Effect} : m.pidUnit.get pid = some name → m.units.get name = some u →
      u.controlPid = some pid → u.active ≠ .deactivating → u.next cmd idx → Runs w m name cmd idx e →
      Launches w m (.processExit pid exit) e
  | stop {id : JobId} {job : Job} {e : Effect} : m.jobs.get id = some job → job.started = false →
      m.unitOperational job.unit → Runs w m job.unit .stop 0 e → Launches w m (.maybeStopJob id) e
  | reload {name : Name} {e : Effect} : Runs w m name .reload 0 e → Launches w m (.reload name) e

namespace SpawnsOnce

theorem of_signals (h : Signals m m') : SpawnsOnce P m m' := by
  obtain ⟨es, he, hs⟩ := h
  refine ⟨es, he, .inl (List.filter_eq_nil_iff.mpr fun e hmem ↦ ?_)⟩
  rw [hs e hmem]
  exact Bool.false_ne_true

theorem of_kernel (h : m'.kernel = m.kernel) : SpawnsOnce P m m' := of_signals (.of_eq h)

theorem frame (hs : Signals m m') (h : SpawnsOnce P m' m'') : SpawnsOnce P m m'' := by
  obtain ⟨es, he, hs⟩ := hs
  obtain ⟨es', he', h⟩ := h
  have hnil : es.filter Effect.isSpawn = [] := by
    refine List.filter_eq_nil_iff.mpr fun e hmem ↦ ?_
    rw [hs e hmem]
    exact Bool.false_ne_true
  refine ⟨es' ++ es, by rw [he', he, List.append_assoc], ?_⟩
  rwa [List.filter_append, hnil, List.append_nil]

theorem mono (h : SpawnsOnce P m m') (hPQ : ∀ e, P e → Q e) : SpawnsOnce Q m m' := by
  obtain ⟨es, he, hs⟩ := h
  exact ⟨es, he, hs.imp_right fun ⟨e, hes, hP⟩ ↦ ⟨e, hes, hPQ e hP⟩⟩

theorem recordSpawn {pid : Pid} {main : Bool} (h : P (.spawn name cmd idx pid)) :
    SpawnsOnce P m (m.recordSpawn name cmd idx pid main) :=
  ⟨[.spawn name cmd idx pid], rfl, .inr ⟨_, rfl, h⟩⟩

theorem andKeep (h : SpawnsOnce P m m') (hk : m''.kernel = m'.kernel) : SpawnsOnce P m m'' := by
  obtain ⟨es, he, hs⟩ := h
  exact ⟨es, by rw [hk, he], hs⟩

end SpawnsOnce

theorem lists_congr (h : (m'.units.get name).bind Unit.serviceCfg =
    (m.units.get name).bind Unit.serviceCfg) : m'.lists name cmd idx ↔ m.lists name cmd idx := by
  rw [Manager.lists, h, Manager.lists]

theorem Runs.congr (h : Runs w m' name cmd idx e) (hs : (m'.units.get name).bind Unit.serviceCfg =
    (m.units.get name).bind Unit.serviceCfg) : Runs w m name cmd idx e :=
  ⟨(lists_congr hs).mp h.1, h.2⟩

theorem Launches.runs (h : Launches w m c e) : ∃ name cmd idx, Runs w m name cmd idx e := by
  cases h with
  | start _ _ _ _ _ he | restart _ _ _ he | stop _ _ _ he | reload he => exact ⟨_, _, _, he⟩
  | next _ _ _ _ _ he => exact ⟨_, _, _, he⟩

/-- The processes that were spawned so far, the latest first. -/
def Manager.spawns (m : Manager) : List Effect := m.kernel.effects.filter Effect.isSpawn

end Rystemd
