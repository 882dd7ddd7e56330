import Mathlib.Data.Set.Basic
import Rystemd.Library.Text
import Rystemd.SentSignals

namespace Rystemd

open Worklist Manager

/-- What a unit file says about signals, after the expansion of specifiers. -/
structure KillLines where
  killMode : Option String := none
  sendSigkill : Option String := none

/-- The `KillMode=` part of `build_service`. -/
def buildKillMode : Option String → Except String KillMode
  | none => .ok .controlGroup
  | some v =>
    match Text.toAsciiLowercase v with
    | "control-group" | "mixed" | "none" => .ok .controlGroup
    | "process" => .ok .process
    | other => .error s!"unsupported KillMode `{other}`"

/-- `parse_bool`. -/
def parseBool (v : String) : Except String Bool :=
  match Text.toAsciiLowercase v with
  | "1" | "yes" | "true" | "on" => .ok true
  | "0" | "no" | "false" | "off" => .ok false
  | other => .error s!"invalid boolean `{other}`"

/-- The `SendSIGKILL=` part of `build_service`. -/
def buildSendSigkill : Option String → Except String Bool
  | none => .ok true
  | some v => parseBool v

/-- The settings let the signal reach these processes, where `main` is the main process. -/
structure KillLines.Allows (l : KillLines) (reached : Set Pid) (main : Option Pid)
    (sig : Signal) : Prop where
  process : l.killMode.map Text.toAsciiLowercase = some "process" → ∀ p ∈ reached, main = some p
  none : l.killMode.map Text.toAsciiLowercase = some "none" → reached = ∅
  sendSigkill : buildSendSigkill l.sendSigkill = .ok false → sig = sigkill → reached = ∅

/-- The processes that the kernel has in the cgroups and in the process groups. -/
structure Processes where
  inCgroup : String → Set Pid
  inGroup : Pid → Set Pid

namespace Processes

variable (p : Processes)

def reached : Effect → Set Pid
  | .spawn .. => ∅
  | .killCgroup _ dir _ => p.inCgroup dir
  | .killGroup _ group _ => p.inGroup group

def cgroupOf (u : Unit) : Set Pid := u.cgroup.elim ∅ p.inCgroup

/-- The processes of the cgroup of a unit, or of its group if it has no cgroup. -/
def tree (u : Unit) : Set Pid :=
  match u.cgroup with
  | some dir => p.inCgroup dir
  | none => u.groupPid.elim ∅ p.inGroup

end Processes

/-- The unit that is signalled, and the signal. -/
def Effect.signal : Effect → Option (Name × Signal)
  | .spawn .. => none
  | .killCgroup name _ sig | .killGroup name _ sig => some (name, sig)

/-- Whether a call is part of a stop of the unit: it begins the stop, or is made while the unit is
deactivating, or gives up a start. Requests for a signal are not. -/
def Call.stops (m : Manager) (name : Name) : Call → Prop
  | .kill .. => False
  | .maybeStopJob _ | .fireTimer _ .startTimeout => True
  | _ => m.activeOf name = some .deactivating

def mainOf (m : Manager) (name : Name) : Option Pid := (m.units.get name).bind Unit.mainPid

/-- The signals that the call sends as part of a stop are those that the settings allow. -/
def Honours (procs : World → Processes) (lines : Name → KillLines)
    (d : Made Manager Call World) : Prop :=
  ∃ es, d.after.kernel.effects = es ++ d.before.kernel.effects ∧
    ∀ e ∈ es, ∀ name sig, e.signal = some (name, sig) → d.call.stops d.before name →
      (lines name).Allows ((procs d.answers).reached e) (mainOf d.before name) sig

/-- The moments at which a stop signals a unit, with the signal and whom it reaches: its stop job
begins while it has processes, its main process exits (of which only the cgroup is left), its
start or its stop times out. -/
inductive StopSignals (p : Processes) (w : World) (m : Manager) :
    Call → Name → Unit → Signal → Set Pid → Prop
  | entry {id : JobId} {job : Job} {u : Unit} : m.jobs.get id = some job →
      m.units.get job.unit = some u → u.operational → job.started = false → u.kind = .service →
      hasProcesses w u → StopSignals p w m (.maybeStopJob id) job.unit u (stopSignal u) (p.tree u)
  | mainExit {name : Name} {exit : ChildExit} {u : Unit} : m.units.get name = some u →
      u.active = .deactivating →
      StopSignals p w m (.mainExit name exit) name u sigkill (p.cgroupOf u)
  | startTimeout {name : Name} {u : Unit} : m.units.get name = some u → u.kind ≠ .timer →
      u.active = .activating →
      StopSignals p w m (.fireTimer name .startTimeout) name u sigkill (p.tree u)
  | stopTimeout {name : Name} {u : Unit} : m.units.get name = some u → u.kind ≠ .timer →
      u.active = .deactivating →
      StopSignals p w m (.fireTimer name .stopTimeout) name u sigkill (p.tree u)

/-- Whenever the call signals a unit as part of a stop, the settings have nothing against it. -/
def Harmless (procs : World → Processes) (lines : Name → KillLines)
    (d : Made Manager Call World) : Prop :=
  ∀ name u sig reached, StopSignals (procs d.answers) d.answers d.before d.call name u sig reached →
    (lines name).Allows reached u.mainPid sig

section Honours

variable {procs : World → Processes} {p : Processes} {lines : Name → KillLines} {w : World}
  {m : Manager} {c : Call} {name : Name} {sig : Signal} {u : Unit} {d : Made Manager Call World}

theorem KillLines.allows_empty {l : KillLines} {main : Option Pid} : l.Allows ∅ main sig :=
  ⟨fun _ _ h ↦ absurd h (Set.notMem_empty _), fun _ ↦ rfl, fun _ _ ↦ rfl⟩

/-- The signals in the list that are part of a stop are allowed. -/
def Allowed (p : Processes) (lines : Name → KillLines) (m : Manager) (c : Call)
    (es : List Effect) : Prop :=
  ∀ e ∈ es, ∀ name sig, e.signal = some (name, sig) → c.stops m name →
    (lines name).Allows (p.reached e) (mainOf m name) sig

theorem allowed_nil : Allowed p lines m c [] := List.forall_mem_nil _

theorem allowed_single {e : Effect} (he : e.signal = some (name, sig)) :
    Allowed p lines m c [e] ↔
      (c.stops m name → (lines name).Allows (p.reached e) (mainOf m name) sig) := by
  constructor
  · intro h hc
    exact h e List.mem_cons_self name sig he hc
  · intro h e' hmem n s hs hc
    obtain rfl := List.mem_singleton.mp hmem
    rw [he, Option.some.injEq, Prod.mk.injEq] at hs
    obtain ⟨rfl, rfl⟩ := hs
    exact h hc

/-- The tree of a unit is signalled as far as there is one. -/
theorem allowed_killEffect (hu : m.units.get name = some u) :
    Allowed p lines m c (m.killEffect name sig).toList ↔
      (c.stops m name → (lines name).Allows (p.tree u) u.mainPid sig) := by
  have hmain : mainOf m name = u.mainPid := by rw [mainOf, hu, Option.bind_some]
  unfold Manager.killEffect Processes.tree
  rw [hu, Option.bind_some, Option.bind_some]
  cases hc : u.cgroup with
  | some dir =>
    rw [← hmain]
    exact allowed_single rfl
  | none =>
    cases hg : u.groupPid with
    | some group =>
      rw [← hmain]
      exact allowed_single rfl
    | none => exact iff_of_true allowed_nil fun _ ↦ KillLines.allows_empty

theorem honours_iff (h : exec d.answers d.call d.before = some (d.after, d.queued)) :
    Honours procs lines d ↔
      Allowed (procs d.answers) lines d.before d.call (signalsOf d.answers d.before d.call) := by
  obtain ⟨es, he, hs⟩ := exec_sends h
  rw [← hs]
  constructor
  · rintro ⟨es', he', hall⟩ e hmem
    obtain rfl : es = es' := List.append_cancel_right (he.symm.trans he')
    exact hall e (List.mem_filter.mp hmem).1
  · intro hall
    refine ⟨es, he, fun e hmem name sig hsig ↦ ?_⟩
    refine hall e (List.mem_filter.mpr ⟨hmem, ?_⟩) name sig hsig
    cases e with
    | spawn => cases hsig
    | killCgroup | killGroup => rfl

theorem allowed_maybeStopJob {id : JobId} :
    Allowed p lines m (.maybeStopJob id) (signalsOf w m (.maybeStopJob id)) ↔
      ∀ name u sig reached, StopSignals p w m (.maybeStopJob id) name u sig reached →
        (lines name).Allows reached u.mainPid sig := by
  rw [signalsOf]
  cases hj : m.jobs.get id with
  | none =>
    refine iff_of_true allowed_nil fun _ _ _ _ h ↦ ?_
    cases h with
    | entry hj' => cases hj.symm.trans hj'
  | some job =>
    rw [Option.elim_some]
    unfold stopJobSignals
    cases hu : m.units.get job.unit with
    | none =>
      refine iff_of_true allowed_nil fun _ _ _ _ h ↦ ?_
      cases h with
      | entry hj' hu' =>
        cases hj.symm.trans hj'
        cases hu.symm.trans hu'
    | some u =>
      dsimp only
      split
      · next hsends =>
        obtain ⟨hop, hstarted, hkind, hp⟩ := hsends
        rw [allowed_killEffect hu]
        constructor
        · intro hall name v sig reached h
          cases h with
          | entry hj' hu' =>
            cases hj.symm.trans hj'
            cases hu.symm.trans hu'
            exact hall trivial
        · intro hall _
          exact hall _ _ _ _ (.entry hj hu hop hstarted hkind hp)
      · next hsends =>
        refine iff_of_true allowed_nil fun _ _ _ _ h ↦ ?_
        cases h with
        | entry hj' hu' hop hstarted hkind hp =>
          cases hj.symm.trans hj'
          cases hu.symm.trans hu'
          exact absurd ⟨hop, hstarted, hkind, hp⟩ hsends

theorem stops_mainExit {exit : ChildExit} (hu : m.units.get name = some u) :
    (Call.mainExit name exit).stops m name ↔ u.active = .deactivating := by
  change m.activeOf name = _ ↔ _
  rw [Manager.activeOf, hu, Option.map_some, Option.some.injEq]

theorem mainExitSignals_signal {e : Effect} (h : e ∈ mainExitSignals w name u) :
    e.signal = some (name, sigkill) := by
  have single {α : Type} {o : Option α} {f : α → Effect}
      (hf : ∀ a, (f a).signal = some (name, sigkill))
      (h : e ∈ (o.map f).toList) : e.signal = some (name, sigkill) := by
    obtain ⟨a, -, rfl⟩ := Option.map_eq_some_iff.mp (Option.mem_toList.mp h)
    exact hf a
  unfold mainExitSignals at h
  split at h
  · exact single (fun _ ↦ rfl) h
  · split at h
    · exact single (fun _ ↦ rfl) h
    · cases h
  · cases h
  · cases h
  · cases h

theorem allowed_mainExit {exit : ChildExit} :
    Allowed p lines m (.mainExit name exit) (signalsOf w m (.mainExit name exit)) ↔
      ∀ n u sig reached, StopSignals p w m (.mainExit name exit) n u sig reached →
        (lines n).Allows reached u.mainPid sig := by
  rw [signalsOf]
  cases hu : m.units.get name with
  | none =>
    refine iff_of_true allowed_nil fun _ _ _ _ h ↦ ?_
    cases h with
    | mainExit hu' => cases hu.symm.trans hu'
  | some u =>
    rw [Option.elim_some]
    by_cases ha : u.active = .deactivating
    · have hsite : (∀ n v sig reached, StopSignals p w m (.mainExit name exit) n v sig reached →
          (lines n).Allows reached v.mainPid sig) ↔
            (lines name).Allows (p.cgroupOf u) u.mainPid sigkill := by
        constructor
        · exact fun hall ↦ hall _ _ _ _ (.mainExit hu ha)
        · intro hallows n v sig reached h
          cases h with
          | mainExit hu' =>
            cases hu.symm.trans hu'
            exact hallows
      have hmain : mainOf m name = u.mainPid := by rw [mainOf, hu, Option.bind_some]
      rw [hsite, mainExitSignals, ha, Processes.cgroupOf]
      cases u.cgroup with
      | none => exact iff_of_true allowed_nil KillLines.allows_empty
      | some dir =>
        rw [← hmain]
        refine (allowed_single rfl).trans ⟨fun h ↦ h ((stops_mainExit hu).mpr ha), fun h _ ↦ h⟩
    · refine iff_of_true (fun e hmem n sig hsig hstops ↦ ?_) fun _ _ _ _ h ↦ ?_
      · rw [mainExitSignals_signal hmem] at hsig
        cases hsig
        exact absurd ((stops_mainExit hu).mp hstops) ha
      · cases h with
        | mainExit hu' ha' =>
          cases hu.symm.trans hu'
          exact absurd ha' ha

theorem allowed_startTimeout (hu : m.units.get name = some u) (hk : u.kind ≠ .timer) :
    Allowed p lines m (.fireTimer name .startTimeout) (timeoutSignals m name u .startTimeout) ↔
      ∀ n v sig reached, StopSignals p w m (.fireTimer name .startTimeout) n v sig reached →
        (lines n).Allows reached v.mainPid sig := by
  rw [timeoutSignals]
  split
  · next ha =>
    rw [allowed_killEffect hu]
    constructor
    · intro hall n v sig reached h
      cases h with
      | startTimeout hu' =>
        cases hu.symm.trans hu'
        exact hall trivial
    · intro hall _
      exact hall _ _ _ _ (.startTimeout hu hk ha)
  · next ha =>
    refine iff_of_true allowed_nil fun _ _ _ _ h ↦ ?_
    cases h with
    | startTimeout hu' _ ha' =>
      cases hu.symm.trans hu'
      exact absurd ha' ha

theorem allowed_stopTimeout (hu : m.units.get name = some u) (hk : u.kind ≠ .timer) :
    Allowed p lines m (.fireTimer name .stopTimeout) (timeoutSignals m name u .stopTimeout) ↔
      ∀ n v sig reached, StopSignals p w m (.fireTimer name .stopTimeout) n v sig reached →
        (lines n).Allows reached v.mainPid sig := by
  rw [timeoutSignals]
  split
  · next ha =>
    rw [allowed_killEffect hu]
    constructor
    · intro hall n v sig reached h
      cases h with
      | stopTimeout hu' =>
        cases hu.symm.trans hu'
        apply hall
        change m.activeOf name = _
        rw [Manager.activeOf, hu, Option.map_some, ha]
    · intro hall _
      exact hall _ _ _ _ (.stopTimeout hu hk ha)
  · next ha =>
    refine iff_of_true allowed_nil fun _ _ _ _ h ↦ ?_
    cases h with
    | stopTimeout hu' _ ha' =>
      cases hu.symm.trans hu'
      exact absurd ha' ha

theorem allowed_fireTimer {kind : TimerKind} :
    Allowed p lines m (.fireTimer name kind) (signalsOf w m (.fireTimer name kind)) ↔
      ∀ n u sig reached, StopSignals p w m (.fireTimer name kind) n u sig reached →
        (lines n).Allows reached u.mainPid sig := by
  rw [signalsOf]
  cases hu : (m.units.get name).filter fun u ↦ u.kind ≠ .timer with
  | none =>
    refine iff_of_true allowed_nil fun _ u _ _ h ↦ ?_
    have hnone : m.units.get name = some u → ¬ u.kind ≠ .timer := by
      intro hu' hk
      rw [hu', Option.filter_some, if_pos (decide_eq_true hk)] at hu
      cases hu
    cases h with
    | startTimeout hu' hk => exact absurd hk (hnone hu')
    | stopTimeout hu' hk => exact absurd hk (hnone hu')
  | some u =>
    obtain ⟨hu, hk⟩ := Option.filter_eq_some_iff.mp hu
    have hk := of_decide_eq_true hk
    rw [Option.elim_some]
    cases kind with
    | startTimeout => exact allowed_startTimeout hu hk
    | stopTimeout => exact allowed_stopTimeout hu hk
    | restartDelay | calendarElapse | monotonicElapse =>
      exact iff_of_true allowed_nil fun _ _ _ _ h ↦ by cases h

theorem allowed_kill : Allowed p lines m (.kill name sig) (signalsOf w m (.kill name sig)) :=
  fun _ _ _ _ _ hstops ↦ hstops.elim

/-- A call honours the settings if and only if they have nothing against whom it reaches. -/
theorem allowed_iff : Allowed p lines m c (signalsOf w m c) ↔
    ∀ name u sig reached, StopSignals p w m c name u sig reached →
      (lines name).Allows reached u.mainPid sig := by
  cases c with
  | maybeStopJob id => exact allowed_maybeStopJob
  | mainExit name exit => exact allowed_mainExit
  | fireTimer name kind => exact allowed_fireTimer
  | kill name sig => exact iff_of_true allowed_kill fun _ _ _ _ h ↦ by cases h
  | _ => exact iff_of_true allowed_nil fun _ _ _ _ h ↦ by cases h

end Honours

/-- What the unit files said when the calls of a run were made: the units are built from it. -/
structure Written (l : List (Made Manager Call World)) where
  lines : Made Manager Call World → Name → KillLines
  built : ∀ d ∈ l, ∀ name u sc, d.before.units.get name = some u → u.serviceCfg = some sc →
    buildKillMode (lines d name).killMode = .ok sc.killMode

theorem buildKillMode_process : buildKillMode (some "process") = .ok .process := by
  have hlower : Text.toAsciiLowercase "process" = "process" := by
    rw [← String.toList_inj, Text.toAsciiLowercase, String.toList_map]
    decide
  rw [buildKillMode, hlower]
  rfl

/-- The least that gives the units that there are. -/
def Written.least (l : List (Made Manager Call World)) : Written l where
  lines d name :=
    match ((d.before.units.get name).bind Unit.serviceCfg).map ServiceConfig.killMode with
    | some .process => { killMode := some "process" }
    | _ => {}
  built d _ name u sc hu hsc := by
    rw [hu, Option.bind_some, hsc, Option.map_some]
    cases sc.killMode with
    | controlGroup => rfl
    | process => exact buildKillMode_process

/-- In every run, the stops honour the settings if and only if these have nothing against whom
the signals of the stops reach. -/
theorem settings_honoured_iff {C : World → Call → Manager → Prop} {a b : Config Manager Call}
    {l : List (Made Manager Call World)} (h : History engine C a l b)
    (procs : World → Processes) (s : Written l) :
    (∀ d ∈ l, Honours procs (s.lines d) d) ↔ ∀ d ∈ l, Harmless procs (s.lines d) d :=
  forall₂_congr fun _ hd ↦ (honours_iff (h.made hd).1.exec).trans allowed_iff

theorem settings_honoured_stopping : ∃ m a l, ∃ s : Written l, Booted m ∧
    History engine (keepsStopTimeouts · · ·) ⟨m, []⟩ l a ∧ stopping a ∧
      ∀ procs, (∀ d ∈ l, Honours procs (s.lines d) d) ↔ ∀ d ∈ l, Harmless procs (s.lines d) d := by
  obtain ⟨m, hb, hr⟩ := stoppingService.reached
  obtain ⟨l, hl⟩ := hr.history
  exact ⟨m, _, l, .least l, hb, hl, stoppingService.shows,
    fun procs ↦ settings_honoured_iff hl procs (.least l)⟩

end Rystemd
