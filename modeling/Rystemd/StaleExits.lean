import Mathlib.Algebra.Order.BigOperators.Group.List
import Mathlib.Algebra.Order.Ring.Nat
import Rystemd.Totality

namespace Rystemd

open Worklist

/-- The signal goes to the processes of the unit. -/
def Effect.signals (name : Name) : Effect → Bool
  | .killCgroup unit .. | .killGroup unit .. => unit = name
  | .spawn .. => false

/-- The state of a unit, its main process and its result. -/
def Unit.standing (u : Unit) : ActiveState × Option Pid × Option Pid × UnitResult :=
  (u.active, u.mainPid, u.groupPid, u.result)

/-- Between `m` and `m'` nothing happened to the unit, to its jobs or to its processes. -/
structure Untouched (name : Name) (m m' : Manager) : Prop where
  standing : (m'.units.get name).map Unit.standing = (m.units.get name).map Unit.standing
  jobs : ∀ id job, job.unit = name → (m'.jobs.get id = some job ↔ m.jobs.get id = some job)
  unitJob : m'.unitJob.get name = m.unitJob.get name
  spared : ∃ es, m'.kernel.effects = es ++ m.kernel.effects ∧ ∀ e ∈ es, e.signals name = false

/-- However the exit of the process is handled, the unit is not touched. -/
def ExitIsolated (m : Manager) (name : Name) (pid : Pid) (exit : ChildExit) : Prop :=
  ∀ b, Handles engine (fun _ _ _ ↦ True) ⟨m, [.processExit pid exit]⟩ b → Untouched name m b.state

/-- The exit of the main process would find nothing to change: no process is known, and the unit
is as a clean exit leaves it. -/
def Manager.exitChangesNothing (m : Manager) (name : Name) (u : Unit) (exit : ChildExit) : Bool :=
  u.mainPid.isNone && u.groupPid.isNone &&
    !shouldRestart u.restartPolicy (u.exitOk exit) exit && u.exitOk exit &&
    u.exitedState.1 = u.active && !(m.jobOf name).any fun j ↦ j.2.kind = .start

/-- The exit of a process that the unit does not wait for is of no consequence. -/
def Manager.harmlessExit (m : Manager) (name : Name) (u : Unit) (exit : ChildExit) : Bool :=
  u.kind = .target || m.exitChangesNothing name u exit

/-- The unit is failed already, and the exit makes it fail in the same way once more. -/
def Unit.failsAgain (u : Unit) (exit : ChildExit) : Prop :=
  u.active = .failed ∧ u.mainPid = none ∧ u.groupPid = none ∧
    Manager.shouldRestart u.restartPolicy (u.exitOk exit) exit = false ∧ u.exitOk exit = false ∧
    u.result = Manager.exitResult exit

variable {w : World} {m m' : Manager} {name : Name} {out : Out} {id : JobId} {job : Job}
  {pid : Pid} {exit : ChildExit} {u : Unit}

section Untouched

theorem Untouched.refl : Untouched name m m := ⟨rfl, fun _ _ _ ↦ .rfl, rfl, [], rfl, by simp⟩

theorem Untouched.of_unit (hu : m.units.get name = some u) {u' : Unit}
    (hu' : m'.units.get name = some u') (hs : u'.standing = u.standing) (hj : m'.jobs = m.jobs)
    (hx : m'.unitJob = m.unitJob) (hk : m'.kernel.effects = m.kernel.effects) : Untouched name m m' where
  standing := by rw [hu, hu', Option.map_some, Option.map_some, hs]
  jobs := by simp [hj]
  unitJob := by rw [hx]
  spared := ⟨[], hk, by simp⟩

theorem Untouched.standing_eq (h : Untouched name m m') (hu : m.units.get name = some u) {u' : Unit}
    (hu' : m'.units.get name = some u') : u'.standing = u.standing := by
  have hs := h.standing
  rw [hu, hu'] at hs
  exact Option.some.inj hs

theorem Untouched.activeOf (h : Untouched name m m') : m'.activeOf name = m.activeOf name := by
  have hs := congrArg (Option.map Prod.fst) h.standing
  rwa [Option.map_map, Option.map_map] at hs

theorem rearmTimer_kernel (h : m.rearmTimer w name = some m') : m'.kernel = m.kernel := by
  unfold Manager.rearmTimer at h
  extract_lets wheel at h
  split at h
  · cases h
    rfl
  · obtain ⟨u, -, h⟩ := Option.bind_eq_some_iff.mp h
    split at h
    · cases h
      rfl
    · extract_lets st calendar wheel' display at h
      split at h
      cases h
      rfl

theorem rearmTimers_kernel {names : List Name} (h : m.rearmTimers w names = some m') :
    m'.kernel = m.kernel := by
  induction names generalizing m with
  | nil => cases h; rfl
  | cons n names ih =>
    obtain ⟨m₁, h₁, h⟩ := Option.bind_eq_some_iff.mp h
    exact (ih h).trans (rearmTimer_kernel h₁)

/-- A look at the timers does not touch the unit. -/
theorem Untouched.timers {m₀ : Manager} {names : List Name} (h : Untouched name m₀ m)
    (hr : m.rearmTimers w names = some m') : Untouched name m₀ m' where
  standing := by
    have hc := congrArg (Option.map Unit.standing) ((Quiet.rearmTimers hr).units name)
    rw [Option.map_map, Option.map_map] at hc
    exact hc.trans h.standing
  jobs := by rw [(Quiet.rearmTimers hr).jobs]; exact h.jobs
  unitJob := by rw [(Quiet.rearmTimers hr).unitJob, h.unitJob]
  spared := by rw [rearmTimers_kernel hr]; exact h.spared

end Untouched

section Exit

theorem processExit_main (hp : m.pidUnit.get pid = some name) (hu : m.units.get name = some u)
    (hk : u.kind ≠ .target) (hc : u.controlPid ≠ some pid) :
    m.processExit w pid exit = some (m.forgetPid pid, [.mainExit name exit]) := by
  have hu' : (m.forgetPid pid).units.get name = some u := hu
  simp [Manager.processExit, hp, hu', hk, hc]

theorem processExit_target (hp : m.pidUnit.get pid = some name) (hu : m.units.get name = some u)
    (hk : u.kind = .target) : m.processExit w pid exit = some (m.forgetPid pid, []) := by
  have hu' : (m.forgetPid pid).units.get name = some u := hu
  simp [Manager.processExit, hp, hu', hk]

/-- The unit once its main process is forgotten. -/
def Unit.mainless (u : Unit) : Unit := { u with mainPid := none, groupPid := none }

theorem forgetMain_get (hu : m.units.get name = some u) :
    (m.forgetMain name).units.get name = some u.mainless := by
  change (m.units.modify name _).get name = _
  rw [Table.get_modify, if_pos rfl, hu]
  rfl

theorem completeStartJob_idle (hp : Pointed m)
    (hj : (m.jobOf name).any (fun j ↦ j.2.kind = .start) = false) :
    m.completeStartJob w name = some (m, [.timerDepCheck]) := by
  unfold Manager.completeStartJob Manager.completeJob
  cases hx : m.unitJob.get name with
  | none => rfl
  | some jid =>
    obtain ⟨job, hjob, -⟩ := hp name jid hx
    have hk : job.kind ≠ .start := by simpa [Manager.jobOf, hx, hjob] using hj
    simp [hjob, hk, Out.andThen]

theorem setActive_get {s : ActiveState} {sub : SubState} {r : UnitResult}
    (hu : m.units.get name = some u) :
    (m.setActive w name s sub r).units.get name = some (u.setActive w.now s sub r) := by
  change (m.units.modify name _).get name = _
  rw [Table.get_modify, if_pos rfl, hu]
  rfl

theorem setActive_result {now : Nat} {s : ActiveState} {sub : SubState} {r : UnitResult} :
    (u.setActive now s sub r).result = if r = .success then u.result else r := by
  unfold Unit.setActive
  cases s <;> dsimp only <;> (try split) <;> rfl

theorem setActive_standing {now : Nat} {s : ActiveState} {sub : SubState} {r : UnitResult} :
    (u.setActive now s sub r).standing =
      (s, u.mainPid, u.groupPid, if r = .success then u.result else r) := by
  have hp := setActive_procs now s sub r u
  simp only [Unit.procs, Prod.mk.injEq] at hp
  rw [Unit.standing, setActive_active, setActive_result, hp.1, hp.2.1]

/-- An exit that changes nothing leaves only a look at the timers to do. -/
theorem mainExit_changes_nothing (hp : Pointed m) (hu : m.units.get name = some u)
    (h : m.exitChangesNothing name u exit) :
    ∃ m', m.mainExit w name exit = some (m', [.timerDepCheck, .timerDepCheck]) ∧
      Untouched name m m' := by
  simp only [Manager.exitChangesNothing, Bool.and_eq_true, Option.isNone_iff_eq_none,
    Bool.not_eq_true', decide_eq_true_eq] at h
  obtain ⟨⟨⟨⟨⟨hmain, hgroup⟩, hrestart⟩, hok⟩, hs⟩, hj⟩ := h
  have hu₁ := forgetMain_get hu
  have hsame : u.mainless = u := by
    cases u
    cases hmain
    cases hgroup
    rfl
  rw [hsame] at hu₁
  rw [hok] at hrestart
  have hu₂ : ((m.forgetMain name).setActive w name u.exitedState.1 u.exitedState.2 .success).units.get
      name = some (u.setActive w.now u.exitedState.1 u.exitedState.2 .success) := setActive_get hu₁
  have hc : Manager.completeStartJob w
      ((m.forgetMain name).setActive w name u.exitedState.1 u.exitedState.2 .success) name = _ :=
    completeStartJob_idle hp hj
  have ha : (m.forgetMain name).handleActiveExit w name exit = some
      ((m.forgetMain name).setActive w name u.exitedState.1 u.exitedState.2 .success,
        [.timerDepCheck, .timerDepCheck]) := by
    simp [Manager.handleActiveExit, hu₁, hrestart, hok, hc, Out.andThen]
  refine ⟨_, ?_, .of_unit hu hu₂ ?_ rfl rfl rfl⟩
  · have hne : u.active = .active ∨ u.active = .inactive := hs ▸ exitedState_active u
    unfold Manager.mainExit
    rcases hne with hne | hne <;> simp [hu, hne, hgroup, ha]
  · rw [setActive_standing, hs]
    rfl

/-- How an exit leaves a unit that is neither starting nor stopping, if the start limit is far. -/
theorem handleActiveExit_leaves (hu : m.units.get name = some u)
    (hl : (Manager.checkStartLimit w.now u).1 = false)
    (h : m.handleActiveExit w name exit = some out) :
    ∃ u', out.1.units.get name = some u' ∧ u'.mainPid = u.mainPid ∧ u'.groupPid = u.groupPid ∧
      (u'.active = .activating ∨
        (Manager.shouldRestart u.restartPolicy (u.exitOk exit) exit = false ∧ u.exitOk exit ∧
          u'.active = u.exitedState.1 ∧ ∀ jid job, m.jobOf name = some (jid, job) →
            job.kind = .start → out.1.jobs.get jid = none) ∨
        (Manager.shouldRestart u.restartPolicy (u.exitOk exit) exit = false ∧
          u.exitOk exit = false ∧ u'.active = .failed ∧ u'.result = Manager.exitResult exit)) := by
  obtain ⟨u₀, hu₀, h⟩ := Option.bind_eq_some_iff.mp h
  rw [hu] at hu₀
  cases hu₀
  have procs {now s sub r} {v : Unit} : (v.setActive now s sub r).mainPid = v.mainPid ∧
      (v.setActive now s sub r).groupPid = v.groupPid := by
    have hs : (v.setActive now s sub r).standing = _ := setActive_standing
    simp only [Unit.standing, Prod.mk.injEq] at hs
    exact ⟨hs.2.1, hs.2.2.1⟩
  split at h
  · extract_lets limit m₁ at h
    rw [show limit.1 = false from hl] at h
    cases h
    have hwin : (Manager.checkStartLimit w.now u).2.mainPid = u.mainPid ∧
        (Manager.checkStartLimit w.now u).2.groupPid = u.groupPid := by
      unfold Manager.checkStartLimit
      dsimp only
      split <;> exact ⟨rfl, rfl⟩
    have hget : m₁.units.get name = some limit.2 := by
      change (m.units.modify name _).get name = _
      rw [Table.get_modify, if_pos rfl, hu]
      rfl
    refine ⟨{ limit.2.setActive w.now .activating .autoRestart .success with
      nRestarts := limit.2.nRestarts + 1 }, ?_, procs.1.trans hwin.1, procs.2.trans hwin.2,
      .inl (setActive_active ..)⟩
    change (m₁.units.modify name _).get name = _
    rw [Table.get_modify, if_pos rfl, hget]
    rfl
  · next hr =>
    have hr := eq_false_of_ne_true hr
    split at h
    · next hok =>
      extract_lets s at h
      obtain ⟨r, hc, h⟩ := Option.bind_eq_some_iff.mp h
      cases h
      refine ⟨u.setActive w.now s.1 s.2 .success, ?_, procs.1, procs.2,
        .inr (.inl ⟨hr, hok, setActive_active .., ?_⟩)⟩
      · change r.1.units.get name = _
        rw [(JobsOnly.completeJob hc).units]
        exact setActive_get hu
      · intro jid job hj hk
        obtain ⟨hx, hjob⟩ := jobOf_eq hj
        rcases completeJob_cases hc with ⟨hx', -⟩ | ⟨jid', job', hx', hjob', ⟨-, rfl⟩ | ⟨hk', -⟩⟩
        · rw [show m.unitJob.get name = none from hx'] at hx
          cases hx
        · rw [show m.unitJob.get name = some jid' from hx'] at hx
          cases hx
          change (Manager.finishJob w _ jid).1.jobs.get jid = none
          rw [Manager.finishJob, hjob']
          exact Table.get_remove_self
        · rw [show m.unitJob.get name = some jid' from hx'] at hx
          cases hx
          rw [show m.jobs.get jid = some job' from hjob'] at hjob
          cases hjob
          exact absurd hk (of_decide_eq_false hk')
    · next hok =>
      cases h
      have hu₁ : (m.setResult name (Manager.exitResult exit)).units.get name =
          some { u with result := Manager.exitResult exit } := by
        change (m.units.modify name _).get name = _
        rw [Table.get_modify, if_pos rfl, hu]
        rfl
      refine ⟨_, setActive_get hu₁, procs.1, procs.2,
        .inr (.inr ⟨hr, eq_false_of_ne_true hok, setActive_active .., ?_⟩)⟩
      rw [setActive_result]
      split
      · rfl
      · rfl

end Exit

/-- The configurations in which a harmless exit is handled. -/
inductive Ignoring (m : Manager) (name : Name) (pid : Pid) (exit : ChildExit) :
    Config Manager Call → Prop
  | reaped : Ignoring m name pid exit ⟨m, [.processExit pid exit]⟩
  | main {u : Unit} : m.exitChangesNothing name u exit → m.units.get name = some u →
      Ignoring m name pid exit ⟨m.forgetPid pid, [.mainExit name exit]⟩
  | ignored {m' : Manager} {cs : List Call} : Untouched name m m' → (∀ c ∈ cs, c = .timerDepCheck) →
      Ignoring m name pid exit ⟨m', cs⟩

theorem Ignoring.untouched {b : Config Manager Call} (h : Ignoring m name pid exit b) :
    Untouched name m b.state := by
  cases h with
  | reaped => exact .refl
  | main => exact ⟨rfl, fun _ _ _ ↦ .rfl, rfl, [], rfl, by simp⟩
  | ignored h => exact h

theorem Ignoring.step {c : Call} {rest : List Call} (hp : Pointed m)
    (howner : m.pidUnit.get pid = some name) (hu : m.units.get name = some u)
    (hc : u.controlPid ≠ some pid) (hh : m.harmlessExit name u exit)
    (h : Ignoring m name pid exit ⟨m', c :: rest⟩) (he : exec w c m' = some out) :
    Ignoring m name pid exit ⟨out.1, out.2 ++ rest⟩ := by
  cases h with
  | reaped =>
    change m.processExit w pid exit = some out at he
    by_cases hk : u.kind = .target
    · rw [processExit_target howner hu hk] at he
      cases he
      exact .ignored ⟨rfl, fun _ _ _ ↦ .rfl, rfl, [], rfl, by simp⟩ (by simp)
    · rw [processExit_main howner hu hk hc] at he
      cases he
      exact .main (by simpa [Manager.harmlessExit, hk] using hh) hu
  | main hn hu =>
    obtain ⟨m₁, hm₁, ht⟩ := mainExit_changes_nothing (w := w) (m := m.forgetPid pid) hp hu hn
    have he : (m.forgetPid pid).mainExit w name exit = some out := he
    rw [hm₁] at he
    cases he
    exact .ignored ⟨ht.standing, ht.jobs, ht.unitJob, ht.spared⟩ (by simp)
  | ignored ht hcs =>
    obtain rfl := hcs c (List.mem_cons_self ..)
    obtain ⟨m₁, hm₁, rfl⟩ := Option.map_eq_some_iff.mp he
    exact .ignored (ht.timers hm₁) fun c hc ↦ hcs c (List.mem_cons_of_mem _ hc)

theorem isolated_of_harmless (hp : Pointed m) (howner : m.pidUnit.get pid = some name)
    (hu : m.units.get name = some u) (hc : u.controlPid ≠ some pid)
    (hh : m.harmlessExit name u exit) : ExitIsolated m name pid exit := by
  intro b hb
  have hi : Ignoring m name pid exit b :=
    hb.invariant (I := Ignoring m name pid exit) (fun h _ _ he ↦ h.step hp howner hu hc hh he) .reaped
  exact hi.untouched

/-- A machine whose clock stands past the start limit of a unit. -/
def World.late (u : Unit) : World := { now := u.startWindow.sum + 10000001 }

theorem checkStartLimit_late : (Manager.checkStartLimit (World.late u).now u).1 = false := by
  have hw : u.startWindow.filter (fun t ↦ (World.late u).now ≤ t + 10000000) = [] := by
    refine List.filter_eq_nil_iff.mpr fun t ht hle ↦ ?_
    have hle : u.startWindow.sum + 10000001 ≤ t + 10000000 := of_decide_eq_true hle
    have := List.single_le_sum (fun _ _ ↦ Nat.zero_le _) t ht
    omega
  simp [Manager.checkStartLimit, hw]

theorem freshPids_late {c : Call} : freshPids (World.late u) c m := fun cmd pid h ↦ by cases h

/-- An exit that does not touch the unit finds nothing to change, or the unit failed already. -/
theorem mainExit_untouched (hp : Pointed m) (hu : m.units.get name = some u)
    (h : ∀ b, Handles engine (fun _ _ _ ↦ True) ⟨m, [.mainExit name exit]⟩ b →
      Untouched name m b.state) : m.exitChangesNothing name u exit ∨ u.failsAgain exit := by
  have hsome : (m.units.get name).isSome := by rw [hu]; rfl
  have hdone : (m.mainExit (.late u) name exit).isSome := mainExit_isSome hsome hp
  obtain ⟨out, ho⟩ := Option.isSome_iff_exists.mp hdone
  have hrun : Handles engine (fun _ _ _ ↦ True) ⟨m, [.mainExit name exit]⟩ ⟨out.1, out.2 ++ []⟩ :=
    .single (.mk (freshPids_late (c := .mainExit name exit)) trivial ho)
  have ht := h _ hrun
  have ha := ht.activeOf
  rw [activeOf_eq hu] at ha
  have key : ∀ m₁ : Manager, (m₁.units, m₁.jobs, m₁.unitJob) =
      ((m.forgetMain name).units, m.jobs, m.unitJob) → u.active ≠ .activating →
      m₁.handleActiveExit (World.late u) name exit = some out →
      m.exitChangesNothing name u exit ∨ u.failsAgain exit := by
    intro m₁ he hne hm
    simp only [Prod.mk.injEq] at he
    have hu₁ : m₁.units.get name = some u.mainless := by rw [he.1, forgetMain_get hu]
    have hl : (Manager.checkStartLimit (World.late u).now u.mainless).1 = false :=
      checkStartLimit_late (u := u.mainless)
    obtain ⟨u', hu', hmain, hgroup, hcases⟩ := handleActiveExit_leaves hu₁ hl hm
    have hst := ht.standing_eq hu hu'
    rw [Unit.standing, Unit.standing, hmain, hgroup, Prod.mk.injEq, Prod.mk.injEq, Prod.mk.injEq] at hst
    obtain ⟨hact, hmp, hgp, hres⟩ := hst
    rcases hcases with hc | ⟨hr, hok, hc, hj⟩ | ⟨hr, hok, hc, hc'⟩
    · exact absurd (hact.symm.trans hc) hne
    · left
      have hnone : (m.jobOf name).any (fun j ↦ j.2.kind = .start) = false := by
        refine eq_false_of_ne_true fun hany ↦ ?_
        obtain ⟨⟨jid, job⟩, hjob, hk⟩ := (Option.any_eq_true ..).mp hany
        have hgone := hj jid job (by rw [Manager.jobOf, he.2.1, he.2.2]; exact hjob)
          (of_decide_eq_true hk)
        obtain ⟨hx, hget⟩ := jobOf_eq hjob
        obtain ⟨job', hget', hunit⟩ := hp name jid hx
        rw [hget] at hget'
        cases hget'
        rw [(ht.jobs jid job hunit).mpr hget] at hgone
        cases hgone
      have hr : Manager.shouldRestart u.restartPolicy (u.exitOk exit) exit = false := hr
      have hok : u.exitOk exit := hok
      have hc : u.exitedState.1 = u.active := hc.symm.trans hact
      rw [hok] at hr
      simp [Manager.exitChangesNothing, ← hmp, ← hgp, hr, hok, hc, hnone, Unit.mainless]
    · exact .inr ⟨hact.symm.trans hc, hmp.symm, hgp.symm, hr, hok, hres.symm.trans hc'⟩
  have hm := ho
  unfold Manager.mainExit at hm
  rw [hu, Option.bind_eq_bind, Option.bind_some] at hm
  extract_lets m₁ m₂ m₃ at hm
  split at hm
  · next hd =>
    rw [finalizeStop_activeOf hm, hd] at ha
    cases ha
  · next hd =>
    split at hm
    · cases hm
      have hi := ha.symm.trans (activeOf_eq (setActive_get (forgetMain_get hu)))
      rw [setActive_active, hd] at hi
      cases hi
    · cases hm
      have hs : ((m₂.setResult name (Manager.exitResult exit)).units.get name).isSome := by
        change ((m₁.units.modify name _).get name).isSome
        rw [Table.get_modify, if_pos rfl, forgetMain_get hu]
        rfl
      have hfail : ((m₂.setResult name (Manager.exitResult exit)).failUnit (.late u) name
          (describeExit exit)).isSome := failUnit_isSome hs hp
      obtain ⟨out', ho'⟩ := Option.isSome_iff_exists.mp hfail
      have ht' := h _ (hrun.tail (.mk (freshPids_late (c := .failUnit name (describeExit exit))) trivial ho'))
      have hf := ht'.activeOf
      rw [failUnit_activeOf ho', activeOf_eq hu, hd] at hf
      cases hf
  · next hd =>
    refine key m₃ ?_ (by simp [hd]) hm
    cases hg : u.groupPid with
    | none => simp only [m₃, hg, Option.elim_none]; rfl
    | some pgid => simp only [m₃, hg, Option.elim_some]; rfl
  · next hd => exact key m₁ rfl (by simp [hd]) hm
  · next hd => exact key m₁ rfl (by simp [hd]) hm

theorem harmless_of_isolated (hp : Pointed m) (howner : m.pidUnit.get pid = some name)
    (hu : m.units.get name = some u) (hc : u.controlPid ≠ some pid)
    (h : ExitIsolated m name pid exit) : m.harmlessExit name u exit ∨ u.failsAgain exit := by
  by_cases hk : u.kind = .target
  · exact .inl (by simp [Manager.harmlessExit, hk])
  · have hfirst : Handles engine (fun _ _ _ ↦ True) ⟨m, [.processExit pid exit]⟩
        ⟨m.forgetPid pid, [.mainExit name exit] ++ []⟩ :=
      .single (.mk (freshPids_late (u := u) (c := .processExit pid exit)) trivial
        (processExit_main howner hu hk hc))
    have hall : ∀ b, Handles engine (fun _ _ _ ↦ True) ⟨m.forgetPid pid, [.mainExit name exit]⟩ b →
        Untouched name (m.forgetPid pid) b.state := by
      intro b hb
      have ht := h b (hfirst.trans hb)
      exact ⟨ht.standing, ht.jobs, ht.unitJob, ht.spared⟩
    refine (mainExit_untouched (m := m.forgetPid pid) hp hu hall).imp_left fun hn ↦ ?_
    rw [Manager.harmlessExit, Bool.or_eq_true]
    exact .inr hn

/-- The exit of a process that is neither the main nor the control process of its unit leaves the
unit alone exactly if it would leave it alone as the exit of the main process. In a unit that failed
in the same way before, what else it starts may or may not come back to the unit. -/
theorem stale_exit_isolated {a : Config Manager Call} (h : Reaches (fun _ _ _ ↦ True) a)
    (howner : a.state.pidUnit.get pid = some name) (hu : a.state.units.get name = some u)
    (hc : u.controlPid ≠ some pid) :
    (a.state.harmlessExit name u exit → ExitIsolated a.state name pid exit) ∧
      (ExitIsolated a.state name pid exit →
        a.state.harmlessExit name u exit ∨ u.failsAgain exit) := by
  have hp := h.sound.sound.points
  exact ⟨isolated_of_harmless hp howner hu hc, harmless_of_isolated hp howner hu hc⟩

/-- A machine with one service that can be reloaded. -/
def reloadableMachine : World :=
  .ofFiles [("a.service",
    { service := some { execStart := [⟨["a"], false⟩], execReload := [⟨["r"], false⟩] } })]

/-- The service runs as process 7 and is reloaded as process 8, and again as process 9. -/
def reloadTwice : List (Move Call World) :=
  [.arrive (.start "a.service" .replace), .calls { reloadableMachine with spawn := fun _ ↦ .ok 7 } 3,
    .calls reloadableMachine 20,
    .arrive (.reload "a.service"), .calls { reloadableMachine with spawn := fun _ ↦ .ok 8 } 20,
    .arrive (.reload "a.service"), .calls { reloadableMachine with spawn := fun _ ↦ .ok 9 } 20]

/-- The first reload process is neither the main nor the control process, but its exit ends the run. -/
def reloadedTwice : Shown (fun _ _ _ ↦ True) fun a ↦
    a.state.pidUnit.get 8 = some "a.service" && (a.state.units.get "a.service").any fun u ↦
      u.mainPid = some 7 && u.controlPid = some 9 && u.active = .active &&
        !a.state.harmlessExit "a.service" u (.exited 0) :=
  .play _ reloadableMachine reloadTwice _ (by decide +kernel)

theorem reload_process_exit : ∃ a u, Reaches (fun _ _ _ ↦ True) a ∧
    a.state.units.get "a.service" = some u ∧ u.mainPid = some 7 ∧
    (a.state.harmlessExit "a.service" u (.exited 0) →
      ExitIsolated a.state "a.service" 8 (.exited 0)) ∧
    (ExitIsolated a.state "a.service" 8 (.exited 0) →
      a.state.harmlessExit "a.service" u (.exited 0) ∨ u.failsAgain (.exited 0)) := by
  have hs := reloadedTwice.shows
  simp only [Bool.and_eq_true, Option.any_eq_true, decide_eq_true_eq] at hs
  obtain ⟨howner, u, hu, ⟨⟨hm, hc⟩, -⟩, -⟩ := hs
  exact ⟨_, u, reloadedTwice.reached, hu, hm,
    stale_exit_isolated reloadedTwice.reached howner hu (by simp [hc])⟩

/-- The exit of a process that its unit no longer waits for ends the run of the unit. -/
theorem stale_exit_ends_unit : ¬ ∀ a pid exit name u, Reaches (fun _ _ _ ↦ True) a →
    a.state.pidUnit.get pid = some name → a.state.units.get name = some u → u.mainPid ≠ some pid →
    u.controlPid ≠ some pid → ExitIsolated a.state name pid exit := by
  intro h
  have hs := reloadedTwice.shows
  simp only [Bool.and_eq_true, Option.any_eq_true, decide_eq_true_eq, Bool.not_eq_true'] at hs
  obtain ⟨howner, u, hu, ⟨⟨hm, hc⟩, ha⟩, hh⟩ := hs
  have hi := h _ 8 (.exited 0) _ u reloadedTwice.reached howner hu (by simp [hm]) (by simp [hc])
  have hp := reloadedTwice.reached.sound.sound.points
  rcases harmless_of_isolated hp howner hu (by simp [hc]) hi with hx | hx
  · rw [hh] at hx
    cases hx
  · cases ha.symm.trans hx.1

end Rystemd
