import Rystemd.StopTimeout
import Rystemd.StaleExits
import Rystemd.Library.History

namespace Rystemd

open Worklist Manager

/-- Where the exit of a main process takes a unit that was not in transition. -/
def Unit.settles (u : Unit) (exit : ChildExit) : ActiveState → Prop
  | .activating => shouldRestart u.restartPolicy (u.exitOk exit) exit
  | .failed => shouldRestart u.restartPolicy (u.exitOk exit) exit ∨ ¬ u.exitOk exit
  | .active | .inactive => u.exitOk exit ∧ ¬ shouldRestart u.restartPolicy (u.exitOk exit) exit
  | .deactivating => False

/-- The states in which a start may leave a unit. -/
def ActiveState.started (s : ActiveState) : Prop := s ≠ .deactivating ∧ s ≠ .failed

/-- The state diagram of a unit: the calls that bring the unit `n` of `m` into another active
state, and into which one. -/
inductive Moves (m : Manager) (n : Name) : Call → ActiveState → Prop
  | loads {c : Call} {s : ActiveState} : m.units.get n = none → s = .inactive ∨ s = .active →
      Moves m n c s
  | reloads {s : ActiveState} : s = .inactive ∨ s = .active → Moves m n .loadAll s
  | starts {id : JobId} {job : Job} {s : ActiveState} : m.jobs.get id = some job → job.unit = n →
      job.failed = false → job.waiting = [] → job.started = false → s.started →
      Moves m n (.maybeStartJob id) s
  | restarts {u : Unit} {s : ActiveState} : m.units.get n = some u → u.sub = .autoRestart →
      s.started → Moves m n (.fireTimer n .restartDelay) s
  | announced {c : Call} : c.announces → m.activeOf n = some .activating → Moves m n c .active
  | advances {pid : Pid} {exit : ChildExit} {s : ActiveState} : m.pidUnit.get pid = some n →
      m.activeOf n ≠ some .deactivating → s = .active ∨ s = .inactive →
      Moves m n (.processExit pid exit) s
  | stops {id : JobId} {job : Job} {s : ActiveState} : m.jobs.get id = some job → job.unit = n →
      job.started = false → m.unitOperational n → s = .deactivating ∨ s = .inactive →
      Moves m n (.maybeStopJob id) s
  | stopped {pid : Pid} {exit : ChildExit} : m.pidUnit.get pid = some n →
      m.activeOf n = some .deactivating ∨ m.hasStopJob n → Moves m n (.processExit pid exit) .inactive
  | expires : m.activeOf n = some .deactivating → Moves m n (.fireTimer n .stopTimeout) .inactive
  | vanishes {exit : ChildExit} : m.activeOf n = some .deactivating ∨ m.activeOf n = some .activating →
      Moves m n (.mainExit n exit) .inactive
  | exits {u : Unit} {exit : ChildExit} {s : ActiveState} : m.units.get n = some u →
      u.active ≠ .deactivating → u.active ≠ .activating → u.settles exit s →
      Moves m n (.mainExit n exit) s
  | fails {msg : String} : Moves m n (.failUnit n msg) .failed
  | revives : Moves m n (.revive n) .active
  | resets : m.activeOf n = some .failed → Moves m n (.resetFailed n) .inactive

variable {w : World} {m m' : Manager} {name n : Name} {out : Out} {kind : JobKind}
  {s : ActiveState} {c : Call}

theorem Ends.activeOf (h : Ends w name kind m out) :
    out.1.activeOf name = m.activeOf name ∨
      (kind = .start ∧ (out.1.activeOf name = some .active ∨ out.1.activeOf name = some .inactive)) ∨
      (kind = .stop ∧ out.1.activeOf name = some .inactive) := by
  induction h with
  | waits hk => exact .inl hk.active
  | fails _ _ hk => exact .inl hk.active
  | completes hp hs ho =>
    refine .inr (.inl ⟨rfl, ?_⟩)
    have hj := (JobsOnly.completeJob ho).activeOf name
    rw [hj, hp.active]
    rcases hs with rfl | rfl
    · exact .inl rfl
    · exact .inr rfl
  | stops hp ho =>
    refine .inr (.inr ⟨rfl, ?_⟩)
    rw [(JobsOnly.completeJob ho).activeOf, hp.active]
  | spawns idx main hk _ _ _ _ _ _ ih => rwa [activeOf_recordSpawn, hk.active] at ih

theorem Ends.started (h : Ends w name .start m out) (hs : out.1.activeOf name = some s) :
    m.activeOf name = some s ∨ s = .active ∨ s = .inactive := by
  rcases h.activeOf with ha | ⟨-, ha | ha⟩ | ⟨hk, -⟩
  · exact .inl (ha.symm.trans hs)
  · exact .inr (.inl (Option.some.inj (hs.symm.trans ha)))
  · exact .inr (.inr (Option.some.inj (hs.symm.trans ha)))
  · cases hk

theorem Ends.stopped (h : Ends w name .stop m out) (hs : out.1.activeOf name = some s) :
    m.activeOf name = some s ∨ s = .inactive := by
  rcases h.activeOf with ha | ⟨hk, -⟩ | ⟨-, ha⟩
  · exact .inl (ha.symm.trans hs)
  · cases hk
  · exact .inr (Option.some.inj (hs.symm.trans ha))

theorem doStart_state (h : m.doStart w name = some out) (hs : out.1.activeOf name = some s) :
    m.activeOf name = some s ∨ s.started := by
  obtain ⟨m₁, -, ha, he⟩ := (doStart_begins h).ends
  rcases he.started hs with hm | hm
  · rcases ha with ha | ha
    · exact .inl (ha.symm.trans hm)
    · obtain rfl := Option.some.inj (ha.symm.trans hm)
      exact .inr ⟨nofun, nofun⟩
  · rcases hm with rfl | rfl <;> exact .inr ⟨nofun, nofun⟩

theorem doStop_state (h : m.doStop w name = some out) (hs : out.1.activeOf name = some s) :
    s = .deactivating ∨ s = .inactive := by
  obtain ⟨m₁, hp, he⟩ := doStop_begins h
  rcases he.stopped hs with hm | hm
  · exact .inl (Option.some.inj (hm.symm.trans hp.active))
  · exact .inr hm

theorem Puts.state_eq (h : Puts name s m m') {s' : ActiveState} (hs : m'.activeOf name = some s') :
    s' = s :=
  Option.some.inj (hs.symm.trans h.active)

theorem handleActiveExit_settles {u : Unit} {exit : ChildExit} (hu : m.units.get name = some u)
    (h : m.handleActiveExit w name exit = some out) (hs : out.1.activeOf name = some s) :
    u.settles exit s := by
  obtain ⟨u', hu', h⟩ := Option.bind_eq_some_iff.mp h
  obtain rfl : u = u' := Option.some.inj (hu.symm.trans hu')
  have hsome : (m.units.get name).isSome := by rw [hu]; rfl
  split at h
  · next hr =>
    extract_lets limit m₁ m₂ at h
    have h₁ : Keeps name m m₁ := .checkStartLimit hu
    split at h
    · cases h
      have hp : Puts name .failed m₁ m₂ := .setActive (by rwa [h₁.isSome]) nofun
      obtain rfl := hp.state_eq hs
      exact .inl hr
    · cases h
      rw [activeOf_scheduleRestart (by rwa [h₁.isSome])] at hs
      obtain rfl := Option.some.inj hs
      exact hr
  · next hr =>
    split at h
    · next hok =>
      extract_lets st at h
      obtain ⟨r, hc, h⟩ := Option.bind_eq_some_iff.mp h
      cases h
      have hp : Puts name st.1 m (m.setActive w name st.1 st.2 .success) :=
        .setActive hsome (exitedState_sub u)
      have hst : st.1 = .active ∨ st.1 = .inactive := exitedState_active u
      rw [Out.andThen, (JobsOnly.completeJob hc).activeOf] at hs
      obtain rfl := hp.state_eq hs
      rcases hst with ha | ha <;> rw [ha] <;> exact ⟨hok, hr⟩
    · next hok =>
      cases h
      have hp : Puts name .failed m
          ((m.setResult name (exitResult exit)).setActive w name .failed .failed (exitResult exit)) :=
        setResult_setActive_puts hsome nofun
      obtain rfl := hp.state_eq hs
      exact .inr hok

theorem mainExit_moves {exit : ChildExit} (h : m.mainExit w name exit = some out)
    (hs : out.1.activeOf name = some s) (hne : m.activeOf name ≠ some s) :
    Moves m name (.mainExit name exit) s := by
  obtain ⟨u, hu, h⟩ := Option.bind_eq_some_iff.mp h
  have hactive : m.activeOf name = some u.active := activeOf_eq hu
  extract_lets m₁ m₂ m₃ at h
  have hget : m₁.units.get name = some u.mainless := forgetMain_get hu
  have settled {m₀ : Manager} (hget₀ : m₀.units = m₁.units)
      (h : m₀.handleActiveExit w name exit = some out) : u.settles exit s := by
    change u.mainless.settles exit s
    exact handleActiveExit_settles (by rw [hget₀, hget]) h hs
  split at h
  · next ha =>
    have hstop := finalizeStop_activeOf h
    obtain rfl := Option.some.inj (hs.symm.trans hstop)
    exact .vanishes (.inl (by rw [hactive, ha]))
  · next ha =>
    split at h
    · cases h
      have hsome : (m₂.units.get name).isSome := by
        change (m₁.units.get name).isSome
        rw [hget]
        rfl
      have hp : Puts name .inactive m₂ (m₂.setActive w name .inactive .dead .success) :=
        .setActive hsome nofun
      obtain rfl := hp.state_eq hs
      exact .vanishes (.inr (by rw [hactive, ha]))
    · cases h
      have hk : Keeps name m₂ (m₂.setResult name (Manager.exitResult exit)) := .setResult
      have ha₂ : m₂.activeOf name = m.activeOf name := activeOf_forgetMain
      exact absurd ((ha₂.symm.trans hk.active.symm).trans hs) hne
  · next ha =>
    have hunits : m₃.units = m₁.units := by
      cases hg : u.groupPid with
      | none => simp only [m₃, hg, Option.elim_none]
      | some pgid =>
        simp only [m₃, hg, Option.elim_some]
        rfl
    exact .exits hu (by rw [ha]; nofun) (by rw [ha]; nofun) (settled hunits h)
  · next ha => exact .exits hu (by rw [ha]; nofun) (by rw [ha]; nofun) (settled rfl h)
  · next ha => exact .exits hu (by rw [ha]; nofun) (by rw [ha]; nofun) (settled rfl h)

/-- A unit that was not loaded before comes inactive, or active if it is a device. -/
theorem Rests.moves (h : Rests c m m') (hs : m'.activeOf n = some s) (hne : m.activeOf n ≠ some s) :
    Moves m n c s := by
  cases hn : m.units.get n with
  | some u => exact absurd ((h.activeOf (by rw [hn]; rfl)).symm.trans hs) hne
  | none =>
    obtain ⟨u', hu', rfl⟩ := Option.map_eq_some_iff.mp hs
    exact .loads hn ((h.added n u' hn hu').active.imp_right And.left)

/-- What was only just loaded is not starting. -/
theorem Rests.activating (h : Rests c m m') (hs : m'.activeOf n = some .activating) :
    m.activeOf n = some .activating := by
  cases hn : m.units.get n with
  | some u => exact (h.activeOf (by rw [hn]; rfl)).symm.trans hs
  | none =>
    obtain ⟨u', hu', ha⟩ := Option.map_eq_some_iff.mp hs
    rcases (h.added n u' hn hu').active with ha' | ⟨ha', -⟩ <;> rw [ha] at ha' <;> cases ha'

theorem loadAll_moves (h : m.loadAll w = some m') (hs : m'.activeOf n = some s)
    (hne : m.activeOf n ≠ some s) : Moves m n .loadAll s := by
  obtain ⟨m₁, ha, hq, -⟩ := loadAll_cases h
  rw [hq.activeOf] at hs
  obtain ⟨u', hu', rfl⟩ := Option.map_eq_some_iff.mp hs
  have fresh {u : Unit} (hf : u.Fresh) : u.active = .inactive ∨ u.active = .active :=
    hf.active.imp_right And.left
  cases hn : (m.reloadUnits w).get n with
  | none => exact .reloads (fresh (ha.units.added n u' hn hu'))
  | some v =>
    obtain rfl : v = u' := Option.some.inj ((ha.units.kept n v hn).symm.trans hu')
    have hr := reloadUnits_get hn
    unfold Manager.reloadUnit at hr
    split at hr
    · cases hr
    · next u hu =>
      have hf := loadUnit_fresh hu
      cases hr
      split at hne
      · next old hold =>
        split at hne
        · next hi =>
          rw [if_pos hi]
          exact .reloads (fresh hf)
        · exact absurd (activeOf_eq hold) hne
      · exact .reloads (fresh hf)
    · cases hr
      exact .reloads (.inl rfl)

theorem processExit_moves {pid : Pid} {exit : ChildExit} (h : m.processExit w pid exit = some out)
    (hs : out.1.activeOf n = some s) (hne : m.activeOf n ≠ some s) :
    Moves m n (.processExit pid exit) s := by
  cases processExit_cases h with
  | ignored | main => exact absurd hs hne
  | @control name u _ howner hu _ _ hc =>
    have forgotten {m₁ : Manager} (h : m₁.activeOf name = (m.forgetPid pid).activeOf name) :
        m₁.activeOf name = m.activeOf name := h
    obtain ⟨m₁, hl, hj⟩ := handleControlExit_locals hc
    have hn : n = name := by
      by_contra hn
      rw [hj.activeOf, hl.activeOf_ne hn] at hs
      exact hne hs
    obtain rfl := hn
    have hkept := forgotten activeOf_forgetControl
    rcases handleControlExit_cases hc with ⟨hd, he⟩ | ⟨hd, m₂, hm₂, he⟩ | ⟨-, rfl⟩ | rfl
    · rcases he.stopped hs with ha | rfl
      · exact absurd (hkept.symm.trans ha) hne
      · exact .stopped howner hd
    · rcases he.started hs with ha | hs
      · rcases hm₂ with rfl | ⟨pid', rfl⟩
        · exact absurd (hkept.symm.trans ha) hne
        · rw [activeOf_adoptPid] at ha
          exact absurd (hkept.symm.trans ha) hne
      · exact .advances howner hd hs
    · exact absurd (hkept.symm.trans hs) hne
    · exact absurd (hkept.symm.trans hs) hne

/-- The state diagram is that of the code: a call that brings a unit into another active state
is one of its calls. -/
theorem exec_moves (h : exec w c m = some out) (hs : out.1.activeOf n = some s)
    (hne : m.activeOf n ≠ some s) : Moves m n c s := by
  have named {name : Name} {m₁ m₂ : Manager} (hl : Local name m m₁) (hj : JobsOnly m₁ m₂)
      (hs : m₂.activeOf n = some s) : n = name := by
    by_contra hn
    rw [hj.activeOf, hl.activeOf_ne hn] at hs
    exact hne hs
  cases exec_acts h with
  | rests hr => exact hr.moves hs hne
  | pops => exact absurd hs hne
  | shuts hns =>
    rw [Manager.shutdown, if_neg (by simp [hns])] at hs
    exact absurd hs hne
  | loads hl => exact loadAll_moves hl hs hne
  | removes device =>
    obtain ⟨u', hu', rfl⟩ := Option.map_eq_some_iff.mp hs
    exact absurd (activeOf_eq (udevRemove_get hu')) hne
  | revives hp =>
    obtain rfl := named hp.toLocal .refl hs
    obtain rfl := hp.state_eq hs
    exact .revives
  | resets ha hp =>
    obtain rfl := named hp.toLocal .refl hs
    obtain rfl := hp.state_eq hs
    exact .resets ha
  | @begins id job m' _ hj hf hw hns hsome hr ho =>
    by_cases hn : n = job.unit
    · obtain rfl := hn
      rcases doStart_state ho hs with ha | hs
      · exact absurd ((hr.activeOf hsome).symm.trans ha) hne
      · exact .starts hj rfl hf hw hns hs
    · obtain ⟨m₁, hl, hj'⟩ := doStart_locals ho
      rw [hj'.activeOf, hl.activeOf_ne hn] at hs
      exact hr.moves hs hne
  | @stops id job m' _ hj hop hns hm ho =>
    obtain ⟨m₁, hl, hj'⟩ := doStop_locals ho
    by_cases hn : n = job.unit
    · obtain rfl := hn
      exact .stops hj rfl hns hop (doStop_state ho hs)
    · rw [hj'.activeOf, hl.activeOf_ne hn, hm.activeOf] at hs
      exact absurd hs hne
  | @reloads name _ ho =>
    obtain ⟨hl, ha⟩ := (reload_ends ho .restart).same_of_restart
    obtain rfl := named hl .refl hs
    exact absurd (ha.symm.trans hs) hne
  | @runs _ name m' _ ha hr hact ho =>
    have hj := JobsOnly.completeJob ho
    have hsome : (m'.units.get name).isSome := isSome_of_activeOf hact
    have hp : Puts name .active m' (m'.setActive w name .active .running .success) :=
      .setActive hsome (by decide)
    rw [hj.activeOf] at hs
    by_cases hn : n = name
    · obtain rfl := hn
      obtain rfl := hp.state_eq hs
      exact .announced ha (hr.activating hact)
    · rw [hp.toLocal.activeOf_ne hn] at hs
      exact hr.moves hs hne
  | @fails name msg r m' cs hsome hj =>
    have hp : Puts name .failed m (m.setActive w name .failed .failed r) :=
      .setActive hsome (by decide)
    obtain rfl := named hp.toLocal hj hs
    rw [hj.activeOf] at hs
    obtain rfl := hp.state_eq hs
    exact .fails
  | @restarts name u _ hu hsub ho =>
    obtain ⟨m₁, hl, hj⟩ := doStart_locals ho
    obtain rfl := named hl hj hs
    rcases doStart_state ho hs with ha | hs
    · exact absurd ha hne
    · exact .restarts hu hsub hs
  | @expires name _ ha ho =>
    obtain ⟨m₁, hl, hj⟩ := (Keeps.killTree.ends (finalizeStop_ends ho)).locals
    obtain rfl := named hl hj hs
    obtain rfl := Option.some.inj (hs.symm.trans (finalizeStop_activeOf ho))
    exact .expires ha
  | exits ho => exact processExit_moves ho hs hne
  | mainExits ho =>
    obtain ⟨m₁, hl, hj⟩ := mainExit_locals ho
    obtain rfl := named hl hj hs
    exact mainExit_moves ho hs hne

/-- In every run, a unit that has come into another active state was brought there by one of the
calls of the state diagram, and the calls after it left the unit there. -/
theorem state_entered {C : World → Call → Manager → Prop} {a b : Config Manager Call}
    {l : List (Made Manager Call World)} (h : History engine C a l b)
    (ha : a.state.activeOf n ≠ some s) (hb : b.state.activeOf n = some s) :
    ∃ before d after, l = before ++ d :: after ∧ Moves d.before n d.call s ∧
      ∀ d' ∈ after, d'.before.activeOf n = some s ∧ d'.after.activeOf n = some s := by
  obtain ⟨before, d, after, rfl, hd, hd', hafter⟩ := h.last_change (f := (activeOf · n)) ha hb
  have hmade := (h.made (List.mem_append_right _ List.mem_cons_self)).1
  exact ⟨before, d, after, rfl, exec_moves hmade.exec hd' hd, hafter⟩

/-- Only its stop job makes a unit deactivating. -/
theorem state_entered_stopping : ∃ m a l, Booted m ∧
    History engine (keepsStopTimeouts · · ·) ⟨m, []⟩ l a ∧
      a.state.activeOf "a.service" = some .deactivating ∧
      ∃ before d after, l = before ++ d :: after ∧
        Moves d.before "a.service" d.call .deactivating ∧
        ∀ d' ∈ after, d'.before.activeOf "a.service" = some .deactivating ∧
          d'.after.activeOf "a.service" = some .deactivating := by
  obtain ⟨m, hb, hr⟩ := stoppingService.reached
  obtain ⟨l, hl⟩ := hr.history
  have hend : stoppingService.config.state.activeOf "a.service" = some .deactivating := by
    have hshow := stoppingService.shows
    simp only [stopping, Bool.and_eq_true, Option.any_eq_true, decide_eq_true_eq] at hshow
    obtain ⟨-, u, hu, ⟨ha, -⟩, -⟩ := hshow
    rw [activeOf_eq hu, ha]
  refine ⟨m, _, l, hb, hl, hend, state_entered hl (fun hm ↦ ?_) hend⟩
  obtain ⟨u, hu, ha⟩ := Option.map_eq_some_iff.mp hm
  rcases (hb.pristine.units _ u hu).active with h | ⟨h, -⟩ <;> rw [ha] at h <;> cases h

end Rystemd
