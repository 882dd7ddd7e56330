import Rystemd.Library.History
import Rystemd.Emissions

namespace Rystemd

open Worklist

/-- The unit whose `OnFailure=` units a call starts. -/
def Call.fires : Call → Option Name
  | .fireOnFailure name => some name
  | _ => none

/-- None of the calls starts the `OnFailure=` units of a unit. -/
def Unfired (cs : List Call) : Prop := ∀ c ∈ cs, c.fires = none

namespace Unit

/-- The exit of the main process leads to an automatic restart, if the start limit allows it. -/
def restarts (u : Unit) (exit : ChildExit) : Bool :=
  Manager.shouldRestart u.restartPolicy (u.exitOk exit) exit

/-- The exit of the main process does not fail the unit again, and it does not find the start
limit hit. -/
def exitFailsOnce (now : Nat) (u : Unit) (exit : ChildExit) : Bool :=
  match u.active with
  | .active | .inactive => !(u.restarts exit && (Manager.checkStartLimit now u).1)
  | .failed => u.restarts exit || u.exitOk exit
  | .activating | .deactivating => true

/-- The attempt to run this command fails the unit. -/
def spawnFails (w : World) (u : Unit) (cmd : ControlCommand) (idx : Nat) : Bool :=
  u.serviceCfg.any fun sc ↦ ((Manager.execSlice sc cmd)[idx]?).any fun exec ↦
    (Manager.spawnRefused w sc cmd).isSome ||
      match w.spawn cmd with
      | .ok _ => cmd = .start && sc.serviceType = .dbus && sc.busName.isNone
      | .error _ => !(exec.ignoreFailure && cmd ≠ .stop)

/-- The exit of the control process of the unit fails a start of it. -/
def controlFails (w : World) (u : Unit) (exit : ChildExit) : Bool :=
  match u.controlCommand with
  | some .startPre => !u.exitOk exit || u.spawnFails w .start 0
  | some .start =>
    (u.serviceCfg.any fun sc ↦ sc.serviceType = .oneshot) &&
      (!(u.exitOk exit || (u.serviceCfg.bind fun sc ↦ sc.execStart[u.cmdIndex]?).any
          ExecCommand.ignoreFailure) ||
        if u.serviceCfg.any fun sc ↦ u.cmdIndex + 1 < sc.execStart.length then
          u.spawnFails w .start (u.cmdIndex + 1)
        else u.spawnFails w .startPost 0)
  | _ => false

end Unit

/-- The exit of a main process that fails its unit finds the start limit not hit and the unit
not failed yet, and no control process fails a start of a unit that is failed already. -/
def failsOnce (w : World) (c : Call) (m : Manager) : Bool :=
  match c with
  | .mainExit name exit => (m.units.get name).all fun u ↦ u.exitFailsOnce w.now exit
  | .processExit pid exit => (m.pidUnit.get pid).all fun name ↦ (m.units.get name).all fun u ↦
      !(u.active = .failed && u.kind ≠ .target && u.controlPid = some pid && u.controlFails w exit)
  | _ => true

/-- The call brings the unit into the failed state. -/
def enters (n : Name) (d : Made Manager Call World) : Bool :=
  d.before.activeOf n ≠ some .failed && d.after.activeOf n = some .failed

/-- The call fails a unit that is failed already, since one more start of it failed. -/
def repeats (n : Name) (d : Made Manager Call World) : Bool :=
  d.call.fails = some n && d.before.activeOf n = some .failed

/-- The exit of a process of the unit, or a timer of it. -/
def Call.concerns (m : Manager) (n : Name) : Call → Bool
  | .processExit pid _ => m.pidUnit.get pid = some n
  | .mainExit name _ | .fireTimer name _ => name = n
  | _ => false

/-- In a run with these calls up to `a`, each failure of a unit starts its `OnFailure=` units
once: each call that brings a unit into the failed state queues one start of them, no exit and no
timer of a unit that is failed already does, and all in all no start is lost or made twice. -/
structure OnFailureOnce (l : List (Made Manager Call World)) (a : Config Manager Call) :
    Prop where
  once : ∀ d ∈ l, ∀ n, enters n d → d.queued.countP (fun c ↦ c.fires = some n) = 1
  starts : ∀ d ∈ l, ∀ n, d.call.fires = some n → ∃ u, d.before.units.get n = some u ∧
    d.queued = u.config.onFailure.map (.start · .replace) ++ [.processJobs]
  never : ∀ d ∈ l, ∀ n, d.call.concerns d.before n → d.before.activeOf n = some .failed →
    ∀ c ∈ d.queued, c.fires ≠ some n ∧ c.fails ≠ some n
  accounts : ∀ n, l.countP (fun d ↦ d.call.fires = some n) +
    a.todo.countP (fun c ↦ c.fires = some n) = l.countP (enters n) + l.countP (repeats n)

variable {w : World} {c : Call} {m m' : Manager} {name n : Name} {out : Out} {id : JobId}
  {job : Job} {kind : JobKind} {cs cs' : List Call}

namespace Unfired

theorem nil : Unfired [] := List.forall_mem_nil _

theorem single (h : c.fires = none) : Unfired [c] := List.forall_mem_singleton.mpr h

theorem cons (h : c.fires = none) (hcs : Unfired cs) : Unfired (c :: cs) :=
  List.forall_mem_cons.mpr ⟨h, hcs⟩

theorem append (h : Unfired cs) (h' : Unfired cs') : Unfired (cs ++ cs') :=
  List.forall_mem_append.mpr ⟨h, h'⟩

theorem map {α : Type} {f : α → Call} (l : List α) (h : ∀ a, (f a).fires = none) :
    Unfired (l.map f) := by
  intro c hc
  obtain ⟨a, -, rfl⟩ := List.mem_map.mp hc
  exact h a

theorem of_settles (h : ∀ c ∈ cs, c.settles) : Unfired cs := by
  intro c hc
  have hs := h c hc
  cases c <;> first | rfl | cases hs

theorem pokeFailed : Unfired (m.pokeFailed w name) := map _ fun _ ↦ rfl

theorem ends (h : Ends w name kind m out) : Unfired out.2 := by
  induction h with
  | waits => exact nil
  | fails msg rest _ hr =>
    refine cons rfl ?_
    rcases hr with rfl | rfl
    · exact nil
    · exact single rfl
  | completes _ _ ho => exact of_settles (Settles.completeJob ho)
  | stops _ ho => exact of_settles (Settles.completeJob ho)
  | spawns _ _ _ _ _ _ _ _ _ ih => exact ih

theorem doStart (h : m.doStart w name = some out) : Unfired out.2 := by
  obtain ⟨m', -, -, he⟩ := (doStart_begins h).ends
  exact ends he

theorem expands (h : Expands w m id name out) : Unfired out.2 := by
  cases h with
  | missing | requisite | asserted => exact single rfl
  | skipped => exact of_settles Settles.finishJob
  | opens => exact append (map _ fun _ ↦ rfl) (single rfl)

theorem enqueueStop {mode : JobMode} {next : Option Name} :
    Unfired (m.enqueueStopJobAfterMode w name next mode).2 :=
  append (map _ fun _ ↦ rfl) (single rfl)

theorem starts {mode : JobMode} {reply : Manager.StartReply} (h : Starts w m name mode reply out) :
    Unfired out.2 := by
  cases h with
  | unloadable | shutdown | active | pending | irreversible => exact nil
  | cancels => exact append (of_settles Settles.cancelJob) (single rfl)
  | enqueues _ _ _ _ ho => exact append (expands (expandStartJob_cases ho)) (single rfl)

theorem restart {reply : Manager.Reply} (h : m.restart w name = some (reply, out)) :
    Unfired out.2 := by
  rcases restart_cases h with ⟨-, rfl⟩ | ⟨-, rfl, -⟩ | ⟨-, cs, hcs, rfl⟩ | ⟨-, reply', h, -⟩
  · exact nil
  · exact nil
  · refine append enqueueStop (cons rfl ?_)
    rcases hcs with rfl | ⟨service, rfl⟩
    · exact nil
    · exact single rfl
  · exact starts h

theorem stopWithMode {mode : JobMode} : Unfired (m.stopWithMode w name mode).2.2 := by
  unfold Manager.stopWithMode
  split
  · exact nil
  · split
    · exact nil
    · split
      · exact append enqueueStop (single rfl)
      · split
        · exact append (of_settles Settles.cancelJob) (cons rfl (single rfl))
        · split <;> exact nil

theorem tryAdvanceJob : Unfired (m.tryAdvanceJob w id).2.2 := by
  unfold Manager.tryAdvanceJob
  split
  · exact nil
  · split
    · split
      · exact nil
      · split
        · exact of_settles Settles.finishJobFailed
        · split
          · exact single rfl
          · exact nil
    · split
      · exact single rfl
      · exact nil
    · exact nil

theorem releaseWait : Unfired (m.releaseWait w id job name).2 := by
  unfold Manager.releaseWait
  dsimp only
  split
  · exact nil
  · exact tryAdvanceJob

theorem handleControlExit {exit : ChildExit} (h : m.handleControlExit w name exit = some out) :
    Unfired out.2 := by
  rcases handleControlExit_cases h with ⟨-, he⟩ | ⟨-, m', -, he⟩ | ⟨-, rfl⟩ | rfl
  · exact ends he
  · exact ends he
  · exact single rfl
  · exact nil

theorem failUnit {msg : String} (h : m.failUnit w name msg = some out) :
    ∃ cs, Unfired cs ∧ out.2 = cs ++ [.fireOnFailure name] := by
  obtain ⟨m', -, ⟨jid, job, -, -, -, rfl⟩ | ⟨-, rfl⟩⟩ := failUnit_ends h
  · exact ⟨_, of_settles Settles.finishJobFailed, rfl⟩
  · exact ⟨_, pokeFailed, rfl⟩

end Unfired

/-- The unit did not enter the failed state. -/
def Unfailed (n : Name) (m m' : Manager) : Prop :=
  m'.activeOf n = some .failed → m.activeOf n = some .failed

namespace Unfailed

theorem of_eq (h : m'.activeOf n = m.activeOf n) : Unfailed n m m' := by
  intro hf
  rwa [h] at hf

theorem trans {m'' : Manager} (h : Unfailed n m m') (h' : Unfailed n m' m'') : Unfailed n m m'' :=
  fun hf ↦ h (h' hf)

theorem jobs (h : JobsOnly m m') : Unfailed n m m' := of_eq (h.activeOf n)

theorem added {u : Unit} (h : u.Fresh) (hu : m'.units.get n = some u) : Unfailed n m m' := by
  intro hf
  rw [activeOf_eq hu, Option.some.injEq] at hf
  rcases h.active with ha | ⟨ha, -⟩ <;> rw [hf] at ha <;> cases ha

theorem rests (h : Rests c m m') : Unfailed n m m' := by
  cases hn : m.units.get n with
  | some u => exact of_eq (h.activeOf (by rw [hn]; rfl))
  | none =>
    intro hf
    obtain ⟨u', hu', -⟩ := Option.map_eq_some_iff.mp hf
    exact added (h.added n u' hn hu') hu' hf

theorem puts {s : ActiveState} (h : Puts name s m m') (hs : s ≠ .failed) : Unfailed n m m' := by
  by_cases hn : n = name
  · intro hf
    subst hn
    rw [h.active, Option.some.injEq] at hf
    exact absurd hf hs
  · exact of_eq (by rw [Manager.activeOf, h.others n hn, Manager.activeOf])

theorem touches (h : Touches name m m')
    (ha : m'.activeOf name = m.activeOf name ∨ m'.activeOf name = some .activating) :
    Unfailed n m m' := by
  by_cases hn : n = name
  · subst hn
    rcases ha with ha | ha
    · exact of_eq ha
    · intro hf
      rw [ha] at hf
      cases hf
  · exact of_eq (by rw [Manager.activeOf, h.others n hn, Manager.activeOf])

theorem keeps (h : Keeps name m m') : Unfailed n m m' := touches h.toTouches (.inl h.active)

theorem recordSpawn {cmd : ControlCommand} {idx : Nat} {pid : Pid} {main : Bool} :
    Unfailed n m (m.recordSpawn name cmd idx pid main) := by
  by_cases hn : n = name
  · subst hn
    exact of_eq activeOf_recordSpawn
  · exact of_eq (by rw [Manager.activeOf, Local.recordSpawn.others n hn, Manager.activeOf])

theorem ends (h : Ends w name kind m out) : Unfailed n m out.1 := by
  induction h with
  | waits hk => exact keeps hk
  | fails _ _ hk _ => exact keeps hk
  | completes hp hs ho _ =>
    refine (puts hp ?_).trans (jobs (.completeJob ho))
    rcases hs with rfl | rfl <;> decide
  | stops hp ho => exact (puts hp (by decide)).trans (jobs (.completeJob ho))
  | spawns idx main hk _ _ _ _ _ _ ih => exact (keeps hk).trans (recordSpawn.trans ih)

theorem doStart (h : m.doStart w name = some out) : Unfailed n m out.1 := by
  obtain ⟨m', hl, ha, he⟩ := (doStart_begins h).ends
  exact (touches hl ha).trans (ends he)

theorem doStop (h : m.doStop w name = some out) : Unfailed n m out.1 := by
  obtain ⟨m', hp, he⟩ := doStop_begins h
  exact (puts hp (by decide)).trans (ends he)

/-- A reload finds each failed unit failed before. -/
theorem reloadUnit {u : Unit} (h : m.reloadUnit w n = some u) (hf : u.active = .failed) :
    m.activeOf n = some .failed := by
  have hfresh {v : Unit} (hv : Manager.loadUnit w n = .ok (some v)) (hf : v.active = .failed) :
      False := by
    rcases (loadUnit_fresh hv).active with ha | ⟨ha, -⟩ <;> rw [hf] at ha <;> cases ha
  unfold Manager.reloadUnit at h
  split at h
  · cases h
  · next v hv =>
    cases h
    split at hf
    · next old hold =>
      split at hf
      · exact absurd hf (hfresh hv)
      · exact (activeOf_eq hold).trans (congrArg some hf)
    · exact absurd hf (hfresh hv)
  · cases h
    cases hf

theorem loadAll (h : m.loadAll w = some m') : Unfailed n m m' := by
  obtain ⟨m₁, ha, hq, -⟩ := loadAll_cases h
  refine fun hf ↦ ?_
  rw [hq.activeOf] at hf
  obtain ⟨u₁, hu₁, hf₁⟩ := Option.map_eq_some_iff.mp hf
  cases hn : (m.reloadUnits w).get n with
  | none => exact added (ha.units.added n u₁ hn hu₁) hu₁ hf
  | some u =>
    rw [ha.units.kept n u hn] at hu₁
    cases hu₁
    exact reloadUnit (reloadUnits_get hn) hf₁

theorem udevRemove {device : Device} : Unfailed n m (m.udevRemove device) := by
  intro hf
  obtain ⟨u, hu, ha⟩ := Option.map_eq_some_iff.mp hf
  rw [activeOf_eq (udevRemove_get hu), ha]

theorem handleControlExit {exit : ChildExit} (h : m.handleControlExit w name exit = some out) :
    Unfailed n m out.1 := by
  have hf : Unfailed n m (m.forgetControl name) :=
    touches Touches.forgetControl (.inl activeOf_forgetControl)
  rcases handleControlExit_cases h with ⟨-, he⟩ | ⟨-, m', rfl | ⟨pid, rfl⟩, he⟩ | ⟨-, rfl⟩ | rfl
  · exact hf.trans (ends he)
  · exact hf.trans (ends he)
  · refine hf.trans (trans ?_ (ends he))
    by_cases hn : n = name
    · subst hn
      exact of_eq activeOf_adoptPid
    · exact of_eq (Local.adoptPid.activeOf_ne hn)
  · exact hf
  · exact hf

end Unfailed

/-- What the exit of the main process of a unit that was not in transition starts. -/
inductive ExitFires (now : Nat) (name : Name) (exit : ChildExit) (u : Unit) (out : Out) : Prop
  | limit : u.restarts exit → (Manager.checkStartLimit now u).1 →
      out.1.activeOf name = some .failed → Unfired out.2 → ExitFires now name exit u out
  | lives : (u.restarts exit = true ∧ (Manager.checkStartLimit now u).1 = false) ∨
      (u.restarts exit = false ∧ u.exitOk exit = true) → out.1.activeOf name ≠ some .failed →
      Unfired out.2 → ExitFires now name exit u out
  | fails {cs : List Call} : u.restarts exit = false → u.exitOk exit = false →
      out.1.activeOf name = some .failed → Unfired cs → out.2 = cs ++ [.fireOnFailure name] →
      ExitFires now name exit u out

theorem handleActiveExit_fires {u : Unit} {exit : ChildExit} (hu : m.units.get name = some u)
    (h : m.handleActiveExit w name exit = some out) : ExitFires w.now name exit u out := by
  obtain ⟨u', hu', h⟩ := Option.bind_eq_some_iff.mp h
  rw [hu] at hu'
  cases hu'
  have hs : (m.units.get name).isSome := by rw [hu]; rfl
  split at h
  · next hr =>
    extract_lets limit m₁ m₂ at h
    have h₁ : Keeps name m m₁ := .checkStartLimit hu
    split at h
    · next hlim =>
      cases h
      have hp : Puts name .failed m₁ m₂ := .setActive (by rwa [h₁.isSome]) (by simp)
      exact .limit hr hlim hp.active .pokeFailed
    · next hlim =>
      cases h
      refine .lives (.inl ⟨hr, eq_false_of_ne_true hlim⟩) ?_ .nil
      rw [activeOf_scheduleRestart (by rwa [h₁.isSome])]
      simp
  · next hr =>
    have hr' : u.restarts exit = false := eq_false_of_ne_true hr
    split at h
    · next hok =>
      extract_lets s at h
      obtain ⟨r, hr, h⟩ := Option.bind_eq_some_iff.mp h
      cases h
      have hp : Puts name s.1 m (m.setActive w name s.1 s.2 .success) :=
        .setActive hs (exitedState_sub u)
      have hj := JobsOnly.completeJob hr
      refine .lives (.inr ⟨hr', hok⟩) ?_
        (.append (.of_settles (Settles.completeJob hr)) (.single rfl))
      rw [Out.andThen, hj.activeOf, hp.active]
      rcases exitedState_active u with ha | ha <;> rw [ha] <;> simp
    · next hok =>
      cases h
      have hp : Puts name .failed m ((m.setResult name (Manager.exitResult exit)).setActive w name
          .failed .failed (Manager.exitResult exit)) := setResult_setActive_puts hs (by simp)
      exact .fails hr' (eq_false_of_ne_true hok) hp.active .pokeFailed rfl

/-- What the exit of a main process starts, by the state of the unit. -/
theorem mainExit_fires {u : Unit} {exit : ChildExit} (hu : m.units.get name = some u)
    (h : m.mainExit w name exit = some out) :
    ((u.active = .activating ∨ u.active = .deactivating) ∧ Unfired out.2 ∧
      Unfailed name m out.1) ∨
    (u.active ≠ .activating ∧ u.active ≠ .deactivating ∧ ExitFires w.now name exit u out) := by
  have hforget : Unfailed name m (m.forgetMain name) := .of_eq activeOf_forgetMain
  have hfires {m₁ : Manager} (hu₁ : m₁.units.get name = (m.forgetMain name).units.get name)
      (h : m₁.handleActiveExit w name exit = some out) : ExitFires w.now name exit u out := by
    have hu₂ : m₁.units.get name = some { u with mainPid := none, groupPid := none } := by
      rw [hu₁, Manager.forgetMain, Manager.modifyUnit, Table.get_modify, if_pos rfl, hu]
      rfl
    have hlimit : (Manager.checkStartLimit w.now { u with mainPid := none, groupPid := none }).1 =
        (Manager.checkStartLimit w.now u).1 := by
      unfold Manager.checkStartLimit
      dsimp only
      split <;> rfl
    cases handleActiveExit_fires hu₂ h with
    | limit hr hl ha hc => exact .limit hr (hlimit ▸ hl) ha hc
    | lives hr ha hc => exact .lives (hlimit ▸ hr) ha hc
    | fails hr hok ha hcs he => exact .fails hr hok ha hcs he
  obtain ⟨u', hu', h⟩ := Option.bind_eq_some_iff.mp h
  rw [hu] at hu'
  cases hu'
  extract_lets m₁ m₂ m₃ at h
  split at h
  · next ha =>
    have he : Ends w name .stop m₁ out := Keeps.killTree.ends (finalizeStop_ends h)
    exact .inl ⟨.inr ha, .ends he, hforget.trans (.ends he)⟩
  · next ha =>
    have h₂ : Keeps name m₁ m₂ := .releaseBusNameWatch
    refine .inl ⟨.inl ha, ?_⟩
    split at h
    · cases h
      have hs : (m₂.units.get name).isSome := by
        rw [h₂.isSome, Touches.forgetMain.isSome, hu]
        rfl
      have hp : Puts name .inactive m₁ (m₂.setActive w name .inactive .dead .success) :=
        h₂.puts (.setActive hs (by simp))
      exact ⟨.nil, hforget.trans (.puts hp (by decide))⟩
    · cases h
      have hk : Keeps name m₁ (m₂.setResult name (Manager.exitResult exit)) := h₂.trans .setResult
      exact ⟨.single rfl, hforget.trans (.keeps hk)⟩
  · next ha =>
    refine .inr ⟨by simp [ha], by simp [ha], hfires ?_ h⟩
    cases hg : u.groupPid with
    | none => simp only [m₃, hg, Option.elim_none, m₁]
    | some pgid => simp only [m₃, hg, Option.elim_some]; rfl
  · next ha => exact .inr ⟨by simp [ha], by simp [ha], hfires rfl h⟩
  · next ha => exact .inr ⟨by simp [ha], by simp [ha], hfires rfl h⟩

/-- Some of the calls fails the unit. -/
def Blamed (name : Name) (cs : List Call) : Prop := ∃ c ∈ cs, name ∈ c.fails

namespace Blamed

theorem not_of_none (h : ∀ c ∈ cs, c.fails = none) : ¬ Blamed name cs := by
  rintro ⟨c, hc, hn⟩
  rw [h c hc] at hn
  cases hn

theorem not_nil : ¬ Blamed name [] := not_of_none (List.forall_mem_nil _)

theorem head {msg : String} : Blamed name (.failUnit name msg :: cs) := ⟨_, List.mem_cons_self, rfl⟩

theorem not_completeJob {kinds : JobKind → Bool} (h : m.completeJob w name kinds = some out) :
    ¬ Blamed n out.2 := not_of_none (Plain.of_settles (Settles.completeJob h)).fails

theorem not_oneshotDone (h : m.oneshotDone w name = some out) : ¬ Blamed n out.2 := by
  obtain ⟨u, -, h⟩ := Option.bind_eq_some_iff.mp h
  exact not_completeJob h

end Blamed

theorem spawned_blamed {sc : ServiceConfig} {cmd : ControlCommand} {idx : Nat} {pid : Pid}
    (h : m.spawned w name sc cmd idx pid = some out) :
    Blamed name out.2 ↔ (cmd = .start && sc.serviceType = .dbus && sc.busName.isNone) = true := by
  unfold Manager.spawned at h
  extract_lets main m₁ m₂ at h
  split at h
  · next hmain =>
    have hcmd : cmd = .start := of_decide_eq_true ((Bool.and_eq_true ..).mp hmain).1
    split at h
    · next ht =>
      have hd : sc.serviceType ≠ .dbus := by
        intro hd
        rw [hd] at ht
        cases ht
      simp [hd, Blamed.not_completeJob h]
    · split at h
      · next hd =>
        cases h
        cases hb : sc.busName <;>
          simp [Manager.beginBusNameWait, hb, hcmd, hd, Blamed, Call.fails]
      · next hd =>
        cases h
        simp [hd, Blamed.not_nil]
  · next hmain =>
    cases h
    have hno : ¬ (cmd = .start ∧ sc.serviceType = .dbus) := by
      rintro ⟨hc, hd⟩
      exact hmain (by simp [main, hc, hd, ServiceType.tracksMain])
    simp only [Blamed.not_nil, Bool.and_eq_true, decide_eq_true_eq, false_iff]
    exact fun hc ↦ hno hc.1

theorem spawnCommand_blamed {u : Unit} {cmd : ControlCommand} {idx : Nat}
    {done : Manager → Option Out} (hu : m.units.get name = some u)
    (hdone : ∀ {m' out'}, done m' = some out' → ¬ Blamed name out'.2)
    (h : m.spawnCommand w name cmd idx done = some out) :
    Blamed name out.2 ↔ u.spawnFails w cmd idx = true := by
  obtain ⟨u', hu', h⟩ := Option.bind_eq_some_iff.mp h
  rw [hu] at hu'
  cases hu'
  unfold Unit.spawnFails
  split at h
  · next hsc => simp [hsc, hdone h]
  · next sc hsc =>
    split at h
    · next he => simp [hsc, he, hdone h]
    · next exec he =>
      split at h
      · next r msg hr =>
        cases h
        simp [hsc, he, hr, Blamed.head]
      · next hr =>
        split at h
        · next pid hp =>
          rw [spawned_blamed h]
          simp [hsc, he, hr, hp]
        · next e hp =>
          split at h
          · next hi =>
            have hi' : exec.ignoreFailure = true ∧ cmd ≠ .stop := by simpa using hi
            simp [hsc, he, hr, hp, hdone h, hi']
          · next hi =>
            cases h
            have hi' : exec.ignoreFailure = false ∨ cmd = .stop := by
              by_contra hc
              rw [not_or] at hc
              exact hi (by simp [hc])
            simp [hsc, he, hr, hp, hi', Blamed.head]

theorem runMainStart_blamed {u : Unit} {idx : Nat} (hu : m.units.get name = some u)
    (h : m.runMainStart w name idx = some out) :
    Blamed name out.2 ↔ u.spawnFails w .start idx = true :=
  spawnCommand_blamed hu Blamed.not_oneshotDone h

theorem runStartPostOrFinish_blamed {u : Unit} (hu : m.units.get name = some u)
    (h : m.runStartPostOrFinish w name = some out) :
    Blamed name out.2 ↔ u.spawnFails w .startPost 0 = true := by
  obtain ⟨u', hu', h⟩ := Option.bind_eq_some_iff.mp h
  rw [hu] at hu'
  cases hu'
  split at h
  · refine spawnCommand_blamed hu (fun {m' out'} h ↦ ?_) h
    cases h
    exact Blamed.not_nil
  · next hp =>
    have hp : u.spawnFails w .startPost 0 = false := by
      unfold Unit.spawnFails
      cases hsc : u.serviceCfg with
      | none => rfl
      | some sc =>
        have hnil : sc.execStartPost = [] := by simpa [hsc] using hp
        simp [Manager.execSlice, hnil]
    simp [hp, Blamed.not_oneshotDone h]

theorem spawnFails_congr {u u' : Unit} {cmd : ControlCommand} {idx : Nat}
    (hf : u'.file = u.file) : u'.spawnFails w cmd idx = u.spawnFails w cmd idx := by
  unfold Unit.spawnFails Unit.serviceCfg
  rw [hf]

theorem controlExited_blamed {u u' : Unit} {exit : ChildExit} (hu : m.units.get name = some u')
    (hf : u'.file = u.file) (hstop : u.controlCommand ≠ some .stop)
    (h : m.controlExited w name u exit = some out) :
    Blamed name out.2 ↔ u.controlFails w exit = true := by
  unfold Manager.controlExited at h
  extract_lets ignoreFailure ok next at h
  split at h
  · next hc =>
    have hok : ok = u.exitOk exit := by simp [ok, ignoreFailure, hc]
    simp only [Unit.controlFails, hc, ← hok]
    split at h
    · next hk =>
      rw [runMainStart_blamed hu h, spawnFails_congr hf]
      simp [hk]
    · next hk =>
      cases h
      simp [hk, Blamed.head]
  · next hc =>
    have hok : ok = (u.exitOk exit || (u.serviceCfg.bind fun sc ↦ sc.execStart[u.cmdIndex]?).any
        ExecCommand.ignoreFailure) := by simp [ok, ignoreFailure, hc]
    simp only [Unit.controlFails, hc, ← hok]
    split at h
    · next ht =>
      have hone : (u.serviceCfg.any fun sc ↦ sc.serviceType = .oneshot) = true := by
        cases hs : u.serviceCfg with
        | none => simp [hs] at ht
        | some sc => simpa [hs] using ht
      rw [hone, Bool.true_and]
      split at h
      · next hk =>
        have hmod {f : Unit → Unit} : (m.modifyUnit name f).units.get name = some (f u') := by
          rw [Manager.modifyUnit, Table.get_modify, if_pos rfl, hu, Option.map_some]
        split at h
        · next hn =>
          rw [runMainStart_blamed hmod h, spawnFails_congr (by exact hf), if_pos hn]
          simp [hk, next]
        · next hn =>
          rw [runStartPostOrFinish_blamed hmod h, spawnFails_congr (by exact hf), if_neg hn]
          simp [hk]
      · next hk =>
        cases h
        simp [hk, Blamed.head]
    · next ht =>
      obtain ⟨v, -, h⟩ := Option.bind_eq_some_iff.mp h
      have hone : (u.serviceCfg.any fun sc ↦ sc.serviceType = .oneshot) = false := by
        cases hs : u.serviceCfg with
        | none => rfl
        | some sc => simp_all
      simp [hone, Blamed.not_completeJob h]
    · next ht _ =>
      cases h
      have hone : (u.serviceCfg.any fun sc ↦ sc.serviceType = .oneshot) = false := by
        cases hs : u.serviceCfg with
        | none => rfl
        | some sc => simp_all
      simp [hone, Blamed, Call.fails]
  · next hc => simp [Unit.controlFails, hc, Blamed.not_oneshotDone h]
  · next hc => exact absurd hc hstop
  · next hc =>
    cases h
    simp [Unit.controlFails, hc, Blamed.not_nil]
  · next hc =>
    cases h
    simp [Unit.controlFails, hc, Blamed.not_nil]
  · next hc =>
    cases h
    simp [Unit.controlFails, hc, Blamed, Call.fails]

/-- The exit of the control process of a unit that has failed already. -/
theorem handleControlExit_blamed {u : Unit} {exit : ChildExit} (hu : m.units.get name = some u)
    (ha : u.active = .failed) (h : m.handleControlExit w name exit = some out) :
    Blamed name out.2 ↔ u.controlFails w exit = true := by
  obtain ⟨u', hu', h⟩ := Option.bind_eq_some_iff.mp h
  rw [hu] at hu'
  cases hu'
  extract_lets m₁ at h
  have hu₁ : m₁.units.get name = some
      { u with controlPid := none, groupPid := none, controlCommand := none } := by
    change (m.units.modify name _).get name = _
    rw [Table.get_modify, if_pos rfl, hu]
    rfl
  by_cases hc : u.controlCommand = some .stop
  · have hno : u.controlFails w exit = false := by simp [Unit.controlFails, hc]
    rw [hno]
    split at h
    · cases h
      simp [Blamed.not_nil]
    · rw [if_neg (by simp [ha])] at h
      unfold Manager.controlExited at h
      simp only [hc] at h
      obtain ⟨v, -, h⟩ := Option.bind_eq_some_iff.mp h
      simp [Blamed.not_completeJob h]
  · rw [if_neg (by simp [hc]), if_neg (by simp [ha])] at h
    exact controlExited_blamed hu₁ rfl hc h

theorem processExit_blamed {u : Unit} {pid : Pid} {exit : ChildExit}
    (howner : m.pidUnit.get pid = some name) (hu : m.units.get name = some u)
    (ha : u.active = .failed) (h : m.processExit w pid exit = some out) :
    Blamed name out.2 ↔ (u.kind ≠ .target ∧ u.controlPid = some pid) ∧ u.controlFails w exit := by
  cases processExit_cases h with
  | ignored hno =>
    obtain ⟨u', hu', hk⟩ := hno name howner
    rw [hu] at hu'
    cases hu'
    simp [hk, Blamed.not_nil]
  | main hown hno =>
    rw [howner] at hown
    cases hown
    simp [(hno u hu).2, Blamed, Call.fails]
  | control hown hu' hk hctl hexit =>
    rw [howner] at hown
    cases hown
    rw [hu] at hu'
    cases hu'
    have hu₁ : (m.forgetPid pid).units.get name = some u := hu
    rw [handleControlExit_blamed hu₁ ha hexit]
    simp [hk, hctl]

section Counts

variable {d : Made Manager Call World} {C : World → Call → Manager → Prop}

theorem Unfired.count (h : Unfired cs) : cs.countP (fun c ↦ c.fires = some n) = 0 := by
  refine List.countP_eq_zero.mpr fun c hc ↦ ?_
  rw [h c hc]
  simp

/-- A call that does not meet the condition does not do what is said of the failures. -/
theorem failsOnce_of {l : List (Made Manager Call World)} {a : Config Manager Call}
    (h : OnFailureOnce l a) (hmem : d ∈ l) (hd : d.Real engine C) :
    failsOnce d.answers d.call d.before := by
  by_contra hf
  have hf : failsOnce d.answers d.call d.before = false := eq_false_of_ne_true hf
  cases hcall : d.call with
  | mainExit name exit =>
    have hexec : d.before.mainExit d.answers name exit = some (d.after, d.queued) := by
      have he := hd.exec
      rw [hcall] at he
      exact he
    obtain ⟨u, hu, -⟩ := Option.bind_eq_some_iff.mp hexec
    have hbefore : d.before.activeOf name = some u.active := activeOf_eq hu
    have hfit : u.exitFailsOnce d.answers.now exit = false := by
      simpa [failsOnce, hcall, hu] using hf
    rcases mainExit_fires hu hexec with ⟨hs, -, -⟩ | ⟨-, -, hx⟩
    · rcases hs with hs | hs <;> simp [Unit.exitFailsOnce, hs] at hfit
    · cases hx with
      | limit hr hl ha hcs =>
        have hlive : u.active ≠ .failed := by
          intro hs
          simp [Unit.exitFailsOnce, hs, hr] at hfit
        have hone := h.once d hmem name (by simp [enters, hbefore, hlive, ha])
        have hzero : d.queued.countP (fun c ↦ c.fires = some name) = 0 := hcs.count
        omega
      | lives hlive =>
        rcases hlive with ⟨hr, hl⟩ | ⟨hr, hok⟩ <;> cases hs : u.active <;>
          simp_all [Unit.exitFailsOnce]
      | @fails cs hr hok ha hcs he =>
        have hfailed : u.active = .failed := by
          cases hs : u.active <;> simp_all [Unit.exitFailsOnce]
        have hcon : d.call.concerns d.before name := by simp [hcall, Call.concerns]
        have hq : Call.fireOnFailure name ∈ d.queued := by
          have he : d.queued = _ := he
          simp [he]
        exact (h.never d hmem name hcon (by rw [hbefore, hfailed]) _ hq).1 rfl
  | processExit pid exit =>
    have hexec : d.before.processExit d.answers pid exit = some (d.after, d.queued) := by
      have he := hd.exec
      rw [hcall] at he
      exact he
    have hbad := hf
    simp only [failsOnce, hcall, Option.all_eq_false, Bool.not_eq_false', Bool.and_eq_true,
      decide_eq_true_eq] at hbad
    obtain ⟨name, howner, u, hu, ⟨⟨ha, hk⟩, hctl⟩, hfails⟩ := hbad
    obtain ⟨c, hc, hn⟩ := (processExit_blamed howner hu ha hexec).mpr ⟨⟨hk, hctl⟩, hfails⟩
    have hcon : d.call.concerns d.before name := by simp [hcall, Call.concerns, howner]
    exact (h.never d hmem name hcon (by rw [activeOf_eq hu, ha]) c hc).2 hn
  | _ => simp [failsOnce, hcall] at hf

end Counts

/-- A machine with a service whose failure starts another one. -/
def failingMachine (policy : RestartPolicy) (type : ServiceType) : World :=
  .ofFiles [
    ("a.service", {
      unit := { onFailure := ["b.service"] }
      service := some { serviceType := type, restart := policy, execStart := [⟨["a"], false⟩] } }),
    ("b.service", { service := some { execStart := [⟨["b"], false⟩] } })]

/-- The service is started as process 7. -/
def startFailing (machine : World) : List (Move Call World) :=
  [.arrive (.start "a.service" .replace), .calls { machine with spawn := fun _ ↦ .ok 7 } 3,
    .calls machine 20]

/-- The next call is made in a way that does not meet the condition. -/
def misfires (w : World) (a : Config Manager Call) : Bool :=
  match a.todo with
  | [] => false
  | c :: _ => !failsOnce w c a.state && freshPids w c a.state && (exec w c a.state).isSome

/-- A run that makes such a call. -/
theorem exists_misfire {w : World} (s : Shown (fun _ _ _ ↦ True) (misfires w)) :
    ∃ m l a, Booted m ∧ History engine (fun _ _ _ ↦ True) ⟨m, []⟩ l a ∧ ¬ OnFailureOnce l a := by
  obtain ⟨⟨m', todo⟩, ⟨m, hb, hr⟩, hs⟩ := s
  obtain ⟨l, hl⟩ := hr.history
  cases todo with
  | nil => cases hs
  | cons c rest =>
    simp only [misfires, Bool.and_eq_true, Bool.not_eq_true', decide_eq_true_eq] at hs
    obtain ⟨⟨hfit, hw⟩, he⟩ := hs
    obtain ⟨⟨m'', cs⟩, he⟩ := Option.isSome_iff_exists.mp he
    have hd : (⟨w, c, m', m'', cs⟩ : Made Manager Call World).Real engine fun _ _ _ ↦ True :=
      ⟨hw, trivial, he⟩
    refine ⟨m, _, _, hb, hl.call hd, fun ho ↦ ?_⟩
    have hfit' := failsOnce_of ho (List.mem_append_right l List.mem_cons_self) hd
    rw [hfit] at hfit'
    cases hfit'

/-- A service misses its start timeout and is failed; its process exits after that. -/
def lateExit : Shown (fun _ _ _ ↦ True)
    (misfires { failingMachine .no .notify with reaped := [(7, .exited 1)] }) :=
  let machine := failingMachine .no .notify
  let later := { machine with now := 100000000 }
  .play _ machine (startFailing machine ++ [.arrive .tick,
    .calls { later with spawn := fun _ ↦ .ok 8 } 7, .calls later 40, .arrive .reap,
    .calls { later with reaped := [(7, .exited 1)] } 2]) _ (by decide +kernel)

/-- The late exit of a process whose unit is failed already starts them again. -/
theorem late_exit_fires_again : ∃ m l a, Booted m ∧
    History engine (fun _ _ _ ↦ True) ⟨m, []⟩ l a ∧ ¬ OnFailureOnce l a :=
  exists_misfire lateExit

end Rystemd
