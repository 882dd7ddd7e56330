import Rystemd.Nesting

namespace Rystemd

open Worklist

def Effect.spawns (pid : Pid) : Effect → Bool
  | .spawn _ _ _ p => p = pid
  | _ => false

/-- The manager spawned a process with this pid and has handled its exit. -/
def Manager.reaped (m : Manager) (pid : Pid) : Bool :=
  m.kernel.effects.any (Effect.spawns pid) && !m.kernel.children.contains pid

/-- The process that the PIDFile of a forking unit names is not known as one of another unit and
was not reaped, nor is it the one that exits. -/
def Manager.adoptsOwn (w : World) (m : Manager) (name : Name) (u : Unit) (exited : Pid) : Bool :=
  (Manager.readForkedPidfile w u).all fun pid ↦
    pid ≠ exited && (m.pidUnit.get pid).all (fun n ↦ n = name) && !m.reaped pid

/-- No new process gets a pid that is known, no target waits for a process, and what a forking
unit reads in its PIDFile is its own. -/
def keepsPids (w : World) (c : Call) (m : Manager) : Bool :=
  (ControlCommand.all.all fun cmd ↦ (w.spawn cmd).toOption.all fun pid ↦ !m.pidUnit.contains pid) &&
  match c with
  | .processExit pid _ =>
    (m.pidUnit.get pid).all fun name ↦ (m.units.get name).all fun u ↦
      !(u.kind = .target && (u.mainPid = some pid || u.controlPid = some pid)) &&
      (!(u.active ≠ .deactivating && u.controlPid = some pid && u.controlCommand = some .start &&
          u.serviceCfg.any fun sc ↦ sc.serviceType = .forking) || m.adoptsOwn w name u pid)
  | _ => true

/-- Every unit but for the main process of `x`, whose exit is being handled, owns its processes. -/
structure Owned (x : Option Name) (m : Manager) : Prop where
  main : ∀ n u pid, m.units.get n = some u → x ≠ some n → u.mainPid = some pid →
    m.pidUnit.get pid = some n ∧ m.reaped pid = false
  control : ∀ n u pid, m.units.get n = some u → u.controlPid = some pid →
    m.pidUnit.get pid = some n ∧ m.reaped pid = false ∧ u.mainPid ≠ some pid

variable {w : World} {c : Call} {m m' : Manager} {name : Name} {out : Out} {kind : JobKind}
  {x : Option Name} {pid : Pid} {cs : List Call}

theorem reaped_of_signals (hc : m'.kernel.children = m.kernel.children) (hs : Signals m m')
    (pid : Pid) : m'.reaped pid = m.reaped pid := by
  obtain ⟨es, he, hn⟩ := hs
  have hes : es.any (Effect.spawns pid) = false := by
    rw [List.any_eq_false]
    intro e hmem
    have := hn e hmem
    cases e with
    | spawn => cases this
    | killCgroup | killGroup => simp [Effect.spawns]
  rw [Manager.reaped, Manager.reaped, he, hc, List.any_append, hes, Bool.false_or]

theorem reaped_recordSpawn {cmd : ControlCommand} {idx : Nat} {main : Bool} (pid' : Pid) :
    (m.recordSpawn name cmd idx pid main).reaped pid' = (decide (pid' ≠ pid) && m.reaped pid') := by
  simp only [Manager.reaped, Manager.recordSpawn, List.any_cons, Table.contains, Table.get_insert]
  by_cases h : pid' = pid
  · simp [h]
  · have h' : (Effect.spawn name cmd idx pid).spawns pid' = false := by
      simp [Effect.spawns, Ne.symm h]
    simp [h, h']

theorem reaped_forgetPid {pid' : Pid} (h : pid' ≠ pid) :
    (m.forgetPid pid).reaped pid' = m.reaped pid' := by
  simp only [Manager.reaped, Manager.forgetPid, Table.contains, Table.get_remove, if_neg h]

namespace Owned

theorem weaken (h : Owned none m) : Owned x m :=
  ⟨fun n u pid hu _ ↦ h.main n u pid hu (by simp), h.control⟩

/-- The units know at most the processes that they knew before. -/
theorem shrink (h : Owned x m)
    (hu : ∀ n u', m'.units.get n = some u' → (u'.mainPid = none ∧ u'.controlPid = none) ∨
      ∃ u, m.units.get n = some u ∧ u.Forgets u')
    (hp : m'.pidUnit = m.pidUnit) (hr : ∀ pid, m'.reaped pid = m.reaped pid) : Owned x m' where
  main n u' pid hu' hx hpid := by
    rw [hp, hr]
    rcases hu n u' hu' with ⟨hn, -⟩ | ⟨u, hu, hf⟩
    · rw [hn] at hpid
      cases hpid
    · rcases hf.mainPid with he | he
      · exact h.main n u pid hu hx (he ▸ hpid)
      · rw [he] at hpid
        cases hpid
  control n u' pid hu' hpid := by
    rw [hp, hr]
    rcases hu n u' hu' with ⟨-, hn⟩ | ⟨u, hu, hf⟩
    · rw [hn] at hpid
      cases hpid
    · rcases hf.controlPid with he | he
      · obtain ⟨h₁, h₂, h₃⟩ := h.control n u pid hu (he ▸ hpid)
        refine ⟨h₁, h₂, ?_⟩
        rcases hf.mainPid with he' | he'
        · rwa [he']
        · rw [he']
          simp
      · rw [he] at hpid
        cases hpid

theorem of_others (h : Owned x m) (ho : ∀ n, n ≠ name → m'.units.get n = m.units.get n)
    (hf : ∀ u', m'.units.get name = some u' → ∃ u, m.units.get name = some u ∧ u.Forgets u')
    (hp : m'.pidUnit = m.pidUnit) (hc : m'.kernel.children = m.kernel.children)
    (hs : Signals m m') : Owned x m' := by
  refine h.shrink (fun n u' hu' ↦ .inr ?_) hp (reaped_of_signals hc hs)
  by_cases hn : n = name
  · subst hn
    exact hf u' hu'
  · rw [ho n hn] at hu'
    exact ⟨u', hu', .of_procs rfl⟩

theorem touches (h : Owned x m) (ht : Touches name m m') : Owned x m' :=
  h.of_others ht.others ht.forgets ht.pidUnit ht.children ht.signals

theorem sameProcs (h : Owned x m) (hs : SameProcs name m m')
    (ho : ∀ n, n ≠ name → m'.units.get n = m.units.get n) : Owned x m' := by
  refine h.of_others ho (fun u' hu' ↦ ?_) hs.pidUnit hs.children hs.signals
  have hp := hs.procs
  rw [hu'] at hp
  obtain ⟨u, hu, he⟩ := Option.map_eq_some_iff.mp hp.symm
  exact ⟨u, hu, .of_procs he.symm⟩

theorem jobsOnly (h : Owned x m) (hj : JobsOnly m m') : Owned x m' :=
  h.shrink (fun n u' hu' ↦ .inr ⟨u', by rwa [hj.units] at hu', .of_procs rfl⟩) hj.pidUnit
    (reaped_of_signals (by rw [hj.kernel]) (.of_eq hj.kernel))

theorem rests (h : Owned x m) (hr : Rests c m m') : Owned x m' := by
  refine h.shrink (fun n u' hu' ↦ ?_) hr.pidUnit (reaped_of_signals hr.children hr.signals)
  cases hn : m.units.get n with
  | none =>
    have hf := hr.added n u' hn hu'
    exact .inl ⟨hf.mainPid, hf.controlPid⟩
  | some u =>
    obtain ⟨v, hv, he⟩ := hr.kept n u hn
    rw [hu'] at hv
    cases hv
    exact .inr ⟨u, rfl, .of_procs (Unit.of_bare he fun _ ↦ rfl)⟩

theorem recordSpawn {cmd : ControlCommand} {idx : Nat} {main : Bool} (h : Owned none m)
    (hp : m.pidUnit.get pid = none) : Owned none (m.recordSpawn name cmd idx pid main) := by
  have hne : ∀ {n p}, m.pidUnit.get p = some n → p ≠ pid := by
    rintro n p h rfl
    rw [hp] at h
    cases h
  have known : ∀ {n p}, m.pidUnit.get p = some n ∧ m.reaped p = false →
      (m.recordSpawn name cmd idx pid main).pidUnit.get p = some n ∧
        (m.recordSpawn name cmd idx pid main).reaped p = false := by
    rintro n p ⟨h₁, h₂⟩
    rw [reaped_recordSpawn, h₂, Bool.and_false]
    exact ⟨by rw [Manager.recordSpawn, Table.get_insert, if_neg (hne h₁), h₁], rfl⟩
  have new : (m.recordSpawn name cmd idx pid main).pidUnit.get pid = some name ∧
      (m.recordSpawn name cmd idx pid main).reaped pid = false := by
    rw [reaped_recordSpawn]
    exact ⟨by rw [Manager.recordSpawn, Table.get_insert_self], by simp⟩
  have unit : ∀ {n u'}, (m.recordSpawn name cmd idx pid main).units.get n = some u' →
      m.units.get n = some u' ∨ n = name ∧ ∃ u, m.units.get n = some u ∧
        ((u'.mainPid = some pid ∧ u'.controlPid = none) ∨
          (u'.mainPid = u.mainPid ∧ u'.controlPid = some pid)) := by
    intro n u' hu'
    rw [Manager.recordSpawn, Table.get_modify] at hu'
    split at hu'
    · next hn =>
      obtain ⟨u, hu, rfl⟩ := Option.map_eq_some_iff.mp hu'
      refine .inr ⟨hn, u, hu, ?_⟩
      cases main with
      | true => exact .inl ⟨rfl, rfl⟩
      | false => exact .inr ⟨rfl, rfl⟩
    · exact .inl hu'
  refine ⟨fun n u' p hu' hx hmain ↦ ?_, fun n u' p hu' hcontrol ↦ ?_⟩
  · rcases unit hu' with hu | ⟨rfl, u, hu, ⟨hm, -⟩ | ⟨hm, -⟩⟩
    · exact known (h.main n u' p hu hx hmain)
    · rw [hm] at hmain
      cases hmain
      exact new
    · exact known (h.main n u p hu hx (hm ▸ hmain))
  · rcases unit hu' with hu | ⟨rfl, u, hu, ⟨-, hc⟩ | ⟨hm, hc⟩⟩
    · obtain ⟨h₁, h₂, h₃⟩ := h.control n u' p hu hcontrol
      exact ⟨(known ⟨h₁, h₂⟩).1, (known ⟨h₁, h₂⟩).2, h₃⟩
    · rw [hc] at hcontrol
      cases hcontrol
    · rw [hc] at hcontrol
      cases hcontrol
      refine ⟨new.1, new.2, fun hm' ↦ ?_⟩
      rw [hm] at hm'
      exact hne (h.main n u _ hu (by simp) hm').1 rfl

theorem adoptPid (h : Owned none m) (hp : ∀ n, m.pidUnit.get pid = some n → n = name)
    (hr : m.reaped pid = false) (hc : ∀ u, m.units.get name = some u → u.controlPid = none) :
    Owned none (m.adoptPid name pid) := by
  have known : ∀ {n p}, m.pidUnit.get p = some n → (m.adoptPid name pid).pidUnit.get p = some n := by
    intro n p hn
    rw [Manager.adoptPid, Table.get_insert]
    split
    · next he => rw [hp n (he ▸ hn)]
    · exact hn
  have unit : ∀ {n u'}, (m.adoptPid name pid).units.get n = some u' →
      m.units.get n = some u' ∨ n = name ∧ u'.mainPid = some pid ∧ u'.controlPid = none := by
    intro n u' hu'
    change (m.units.modify name _).get n = some u' at hu'
    rw [Table.get_modify] at hu'
    split at hu'
    · next hn =>
      obtain ⟨u, hu, rfl⟩ := Option.map_eq_some_iff.mp hu'
      exact .inr ⟨hn, rfl, hc u (hn ▸ hu)⟩
    · exact .inl hu'
  refine ⟨fun n u' p hu' hx hmain ↦ ?_, fun n u' p hu' hcontrol ↦ ?_⟩
  · rcases unit hu' with hu | ⟨rfl, hm, -⟩
    · obtain ⟨h₁, h₂⟩ := h.main n u' p hu hx hmain
      exact ⟨known h₁, h₂⟩
    · rw [hm] at hmain
      cases hmain
      exact ⟨by rw [Manager.adoptPid, Table.get_insert_self], hr⟩
  · rcases unit hu' with hu | ⟨rfl, -, hc'⟩
    · obtain ⟨h₁, h₂, h₃⟩ := h.control n u' p hu hcontrol
      exact ⟨known h₁, h₂, h₃⟩
    · rw [hc'] at hcontrol
      cases hcontrol

theorem ends (h : Owned none m) (hnew : ∀ cmd pid, w.spawn cmd = .ok pid → m.pidUnit.get pid = none)
    (he : Ends w name kind m out) : Owned none out.1 := by
  cases he with
  | waits hk => exact h.touches hk.toTouches
  | fails msg rest hk _ => exact h.touches hk.toTouches
  | completes hp _ ho _ => exact (h.touches hp.toTouches).jobsOnly (.completeJob ho)
  | stops hp ho => exact (h.touches hp.toTouches).jobsOnly (.completeJob ho)
  | spawns idx main hk _ hs _ _ hsame he =>
    refine ((h.touches hk.toTouches).recordSpawn ?_).sameProcs hsame fun n hn ↦ ?_
    · rw [hk.pidUnit]
      exact hnew _ _ hs
    · obtain ⟨m', hl, hj⟩ := he.locals
      rw [hj.units, hl.others n hn]

theorem setActive {s : ActiveState} {sub : SubState} {r : UnitResult} (h : Owned x m) :
    Owned x (m.setActive w name s sub r) := by
  have ho : ∀ n, n ≠ name → (m.setActive w name s sub r).units.get n = m.units.get n := by
    intro n hn
    rw [Manager.setActive, Manager.modifyUnit, Table.get_modify, if_neg hn]
  refine h.of_others ho (fun u' hu' ↦ ?_) rfl rfl .refl
  · rw [Manager.setActive, Manager.modifyUnit, Table.get_modify, if_pos rfl] at hu'
    obtain ⟨u, hu, rfl⟩ := Option.map_eq_some_iff.mp hu'
    exact ⟨u, hu, .of_procs (setActive_procs ..)⟩

theorem doStart (h : Owned none m)
    (hnew : ∀ cmd pid, w.spawn cmd = .ok pid → m.pidUnit.get pid = none)
    (ho : m.doStart w name = some out) : Owned none out.1 := by
  obtain ⟨m', ht, -, he⟩ := (doStart_begins ho).ends
  exact (h.touches ht).ends (by rwa [ht.pidUnit]) he

theorem doStop (h : Owned none m)
    (hnew : ∀ cmd pid, w.spawn cmd = .ok pid → m.pidUnit.get pid = none)
    (ho : m.doStop w name = some out) : Owned none out.1 := by
  obtain ⟨m', hp, he⟩ := doStop_begins ho
  exact (h.touches hp.toTouches).ends (by rwa [hp.pidUnit]) he

theorem scheduleRestart {delay : Nat} (h : Owned x m) : Owned x (m.scheduleRestart w name delay) := by
  refine h.of_others scheduleRestart_local.others (fun u' hu' ↦ ?_) rfl rfl (.of_eq rfl)
  change (m.units.modify name _).get name = some u' at hu'
  rw [Table.get_modify, if_pos rfl] at hu'
  obtain ⟨u, hu, rfl⟩ := Option.map_eq_some_iff.mp hu'
  exact ⟨u, hu, .of_procs (setActive_procs ..)⟩

theorem activeExit (h : Owned none m) (ha : ActiveExit w name m out) : Owned none out.1 := by
  cases ha with
  | limit hp | failed hp => exact h.touches hp.toTouches
  | restart delay hk _ => exact (h.touches hk.toTouches).scheduleRestart
  | ended hp _ ho =>
    have hj := JobsOnly.completeJob ho
    exact (h.touches hp.toTouches).jobsOnly hj

/-- The unit forgets the process whose exit is being handled. -/
theorem forgetMain (h : Owned (some name) m) : Owned none (m.forgetMain name) := by
  have hs : Owned (some name) (m.forgetMain name) := h.touches .forgetMain
  refine ⟨fun n u pid hu _ hm ↦ ?_, hs.control⟩
  by_cases hn : n = name
  · subst hn
    change (m.units.modify n _).get n = some u at hu
    rw [Table.get_modify, if_pos rfl] at hu
    obtain ⟨u, -, rfl⟩ := Option.map_eq_some_iff.mp hu
    cases hm
  · exact hs.main n u pid hu (fun he ↦ hn (Option.some.inj he).symm) hm

theorem mainExit {exit : ChildExit} (h : Owned (some name) m)
    (hnew : ∀ cmd pid, w.spawn cmd = .ok pid → m.pidUnit.get pid = none)
    (ho : m.mainExit w name exit = some out) : Owned none out.1 := by
  have hf := h.forgetMain
  obtain ⟨u, -, ho⟩ := mainExit_ends ho
  cases ho with
  | stopped _ he => exact hf.ends hnew he
  | vanished _ _ hp => exact hf.touches hp.toTouches
  | fails _ hk => exact hf.touches hk.toTouches
  | active _ _ he => exact hf.activeExit he

/-- The exit of a process is handled that no unit waits for, but for the main process of `x`. -/
theorem forgetPid (h : Owned none m)
    (hm : ∀ n u, m.units.get n = some u → u.mainPid = some pid → x = some n)
    (hc : ∀ n u, m.units.get n = some u → u.controlPid ≠ some pid) : Owned x (m.forgetPid pid) := by
  have known {n p} (hne : p ≠ pid) (hp : m.pidUnit.get p = some n ∧ m.reaped p = false) :
      (m.forgetPid pid).pidUnit.get p = some n ∧ (m.forgetPid pid).reaped p = false := by
    rw [reaped_forgetPid hne, Manager.forgetPid, Table.get_remove, if_neg hne]
    exact hp
  refine ⟨fun n u p hu hx hmain ↦ ?_, fun n u p hu hcontrol ↦ ?_⟩
  · refine known ?_ (h.main n u p hu (by simp) hmain)
    rintro rfl
    exact hx (hm n u hu hmain)
  · obtain ⟨h₁, h₂, h₃⟩ := h.control n u p hu hcontrol
    have hne : p ≠ pid := by
      rintro rfl
      exact hc n u hu hcontrol
    exact ⟨(known hne ⟨h₁, h₂⟩).1, (known hne ⟨h₁, h₂⟩).2, h₃⟩

/-- The exit of a control process is handled. -/
theorem forgetControl {u : Unit} (h : Owned none m) (hu : m.units.get name = some u)
    (hp : u.controlPid = some pid) : Owned none ((m.forgetPid pid).forgetControl name) := by
  have hf : Owned none (m.forgetControl name) := h.touches .forgetControl
  have hget : (m.forgetControl name).units.get name =
      some { u with controlPid := none, groupPid := none, controlCommand := none } := by
    change (m.units.modify name _).get name = _
    rw [Table.get_modify, if_pos rfl, hu]
    rfl
  have howner : (m.forgetControl name).pidUnit.get pid = some name := (h.control name u pid hu hp).1
  refine forgetPid (m := m.forgetControl name) hf (fun n v hv hm ↦ ?_) fun n v hv hc ↦ ?_
  · rw [(hf.main n v pid hv (by simp) hm).1] at howner
    cases howner
    rw [hget] at hv
    cases hv
    exact absurd hm (h.control _ u pid hu hp).2.2
  · rw [(hf.control n v pid hv hc).1] at howner
    cases howner
    rw [hget] at hv
    cases hv
    cases hc

theorem handleControlExit {u : Unit} {exit : ChildExit} (h : Owned none m)
    (hnew : ∀ cmd pid, w.spawn cmd = .ok pid → m.pidUnit.get pid = none)
    (hu : m.units.get name = some u) (hp : u.controlPid = some pid)
    (hadopts : u.active ≠ .deactivating → u.controlCommand = some .start →
      u.serviceCfg.any (fun sc ↦ sc.serviceType = .forking) → m.adoptsOwn w name u pid)
    (ho : (m.forgetPid pid).handleControlExit w name exit = some out) : Owned none out.1 := by
  have hf := h.forgetControl hu hp
  have hnew' : ∀ cmd p, w.spawn cmd = .ok p →
      ((m.forgetPid pid).forgetControl name).pidUnit.get p = none := by
    intro cmd p hs
    change (m.pidUnit.remove pid).get p = none
    rw [Table.get_remove, hnew cmd p hs, ite_self]
  obtain ⟨u', hu', ho⟩ := handleControlExit_ends ho
  have he : u' = u := Option.some.inj (hu'.symm.trans hu)
  subst he
  cases ho with
  | stopped _ he => exact hf.ends hnew' he
  | advances _ _ he => exact hf.ends hnew' he
  | forks ha hc hs hm' ho =>
    subst hm'
    have hown := hadopts ha hc hs
    have hj := JobsOnly.completeJob ho
    refine Owned.jobsOnly ?_ hj
    refine Owned.setActive ?_
    cases hr : Manager.readForkedPidfile w u' with
    | none => exact hf
    | some p =>
      simp only [Manager.adoptsOwn, hr, Option.all_some, Bool.and_eq_true, decide_eq_true_eq,
        Bool.not_eq_true'] at hown
      obtain ⟨⟨hne, hmap⟩, hreaped⟩ := hown
      refine hf.adoptPid (fun n hn ↦ ?_) ?_ fun v hv ↦ ?_
      · change (m.pidUnit.remove pid).get p = some n at hn
        rw [Table.get_remove, if_neg hne] at hn
        rw [hn, Option.all_some] at hmap
        exact of_decide_eq_true hmap
      · exact (reaped_forgetPid hne).trans hreaped
      · change (m.units.modify name _).get name = some v at hv
        rw [Table.get_modify, if_pos rfl] at hv
        obtain ⟨-, -, rfl⟩ := Option.map_eq_some_iff.mp hv
        rfl
  | posted _ _ ho => exact hf.ends hnew' (oneshotDone_ends ho)
  | main => exact hf
  | ignored => exact hf

theorem loadAll (h : Owned x m) (hl : m.loadAll w = some m') : Owned x m' := by
  obtain ⟨m₁, ha, hq, hs⟩ := loadAll_cases hl
  refine h.shrink (fun n u' hu' ↦ ?_) (hs.pidUnit.trans ha.pidUnit) fun pid ↦ ?_
  · have hn := hq.units n
    rw [hu'] at hn
    obtain ⟨v, hv, he⟩ := Option.map_eq_some_iff.mp hn.symm
    have hprocs : u'.core.procs = v.core.procs := congrArg Unit.procs he.symm
    obtain ⟨hm, -, hc, hcmd⟩ : u'.mainPid = v.mainPid ∧ u'.groupPid = v.groupPid ∧
        u'.controlPid = v.controlPid ∧ u'.controlCommand = v.controlCommand := by
      simpa [Unit.procs, Unit.core] using hprocs
    rw [hm, hc]
    cases hr : (m.reloadUnits w).get n with
    | none =>
      have hf := ha.units.added n v hr hv
      exact .inl ⟨hf.mainPid, hf.controlPid⟩
    | some r =>
      have hr' := ha.units.kept n r hr
      rw [hv] at hr'
      cases hr'
      rcases reloadUnit_procs (reloadUnits_get hr) with hf | ⟨old, hold, hp⟩
      · exact .inl hf
      · simp only [Unit.procs, Prod.mk.injEq] at hp
        exact .inr ⟨old, hold, .inl (hm.trans hp.1), .inl (hc.trans hp.2.2.1),
          .inl (hcmd.trans hp.2.2.2)⟩
  · rw [reaped_of_signals hs.children hs.signals]
    exact congrArg (fun k : Kernel ↦ k.effects.any (Effect.spawns pid) && !k.children.contains pid)
      ha.kernel

theorem udevRemove {device : Device} (h : Owned x m) : Owned x (m.udevRemove device) :=
  h.shrink (fun _ u' hu' ↦ .inr ⟨u', udevRemove_get hu', .of_procs rfl⟩) rfl fun _ ↦ rfl

end Owned

/-- The unit whose main process has exited, if that is what is handled next. -/
def delivering : List Call → Option Name
  | .mainExit name _ :: _ => some name
  | _ => none

theorem keepsPids_spawn (h : keepsPids w c m) (cmd : ControlCommand) (pid : Pid)
    (hs : w.spawn cmd = .ok pid) : m.pidUnit.get pid = none := by
  have hall := ((Bool.and_eq_true ..).mp h).1
  have := List.all_eq_true.mp hall cmd (by cases cmd <;> simp [ControlCommand.all])
  simpa [hs, Except.toOption, Table.contains] using this

theorem keepsPids_exit {exit : ChildExit} {u : Unit} (h : keepsPids w (.processExit pid exit) m)
    (hn : m.pidUnit.get pid = some name) (hu : m.units.get name = some u) :
    (u.kind = .target → u.mainPid ≠ some pid ∧ u.controlPid ≠ some pid) ∧
      (u.active ≠ .deactivating → u.controlPid = some pid → u.controlCommand = some .start →
        u.serviceCfg.any (fun sc ↦ sc.serviceType = .forking) → m.adoptsOwn w name u pid) := by
  have hc := ((Bool.and_eq_true ..).mp h).2
  dsimp only at hc
  rw [hn, Option.all_some, hu, Option.all_some, Bool.and_eq_true] at hc
  refine ⟨fun hk ↦ ?_, fun ha hp hcmd hf ↦ ?_⟩
  · simpa [hk] using hc.1
  · have h₂ := hc.2
    rwa [hf, decide_eq_true hp, decide_eq_true hcmd, decide_eq_true ha] at h₂

/-- Only the exit of a process brings the exit of a main process about. -/
theorem exec_not_mainExit {c' : Call} (h : exec w c m = some out)
    (hc : ∀ pid exit, c ≠ .processExit pid exit) (hc' : c' ∈ out.2) (n : Name) (e : ChildExit) :
    c' ≠ .mainExit n e := by
  rintro rfl
  rcases exec_calls h hc' with hn | hd
  · cases hn
  · cases hd with
    | main => exact hc _ _ rfl

theorem delivering_none {cs : List Call} (h : ∀ c ∈ cs, ∀ n e, c ≠ .mainExit n e) :
    delivering cs = none := by
  cases cs with
  | nil => rfl
  | cons c cs =>
    unfold delivering
    split
    · next n e _ heq =>
      cases heq
      exact absurd rfl (h _ (List.mem_cons_self ..) n e)
    · rfl

theorem processExit_calls {exit : ChildExit} (h : m.processExit w pid exit = some out) :
    (∀ c ∈ out.2, ∀ n e, c ≠ .mainExit n e) ∨ ∃ n, out.2 = [.mainExit n exit] := by
  have nested {cs : List Call} (hn : Nested cs) : ∀ c ∈ cs, ∀ n e, c ≠ .mainExit n e := by
    rintro _ hc n e rfl
    cases hn _ hc
  cases processExit_cases h with
  | ignored => exact .inl (nested .nil)
  | main => exact .inr ⟨_, rfl⟩
  | control _ _ _ _ ho =>
    rcases handleControlExit_cases ho with ⟨-, he⟩ | ⟨-, m', -, he⟩ | ⟨-, rfl⟩ | rfl
    · exact .inl (nested (.of_aftermath (Aftermath.ends he)))
    · exact .inl (nested (.of_aftermath (Aftermath.ends he)))
    · exact .inr ⟨_, rfl⟩
    · exact .inl (nested .nil)

theorem processExit_owned {exit : ChildExit} (h : Owned none m)
    (hC : keepsPids w (.processExit pid exit) m) (he : m.processExit w pid exit = some out) :
    Owned (delivering out.2) out.1 := by
  have hnew := keepsPids_spawn hC
  cases processExit_cases he with
  | ignored ht =>
    have hno : ∀ n u, m.units.get n = some u → u.mainPid ≠ some pid ∧ u.controlPid ≠ some pid := by
      intro n u hu
      have target {n'} (hn : m.pidUnit.get pid = some n') (he : n' = n) :
          u.mainPid ≠ some pid ∧ u.controlPid ≠ some pid := by
        subst he
        obtain ⟨u', hu', hk⟩ := ht n' hn
        rw [hu] at hu'
        cases hu'
        exact (keepsPids_exit hC hn hu).1 hk
      by_cases hm : u.mainPid = some pid
      · exact target (h.main n u pid hu (by simp) hm).1 rfl
      by_cases hc' : u.controlPid = some pid
      · exact target (h.control n u pid hu hc').1 rfl
      · exact ⟨hm, hc'⟩
    exact h.forgetPid (fun n u hu hm ↦ absurd hm (hno n u hu).1) fun n u hu ↦ (hno n u hu).2
  | main howner hother =>
    refine h.forgetPid (fun n u hu hm ↦ ?_) fun n u hu hc' ↦ ?_
    · have hn := (h.main n u pid hu (by simp) hm).1
      rw [howner] at hn
      exact hn
    · have hn := (h.control n u pid hu hc').1
      rw [howner] at hn
      cases hn
      exact (hother u hu).2 hc'
  | control howner hu hk hp ho =>
    refine Owned.weaken (h.handleControlExit hnew hu hp (fun ha hcmd hf ↦ ?_) ho)
    exact (keepsPids_exit hC howner hu).2 ha hp hcmd hf

theorem exec_owned (h : Owned none m) (hC : keepsPids w c m) (he : exec w c m = some out)
    (hp : ∀ pid exit, c ≠ .processExit pid exit) (hm : ∀ n exit, c ≠ .mainExit n exit) :
    Owned none out.1 := by
  have hnew := keepsPids_spawn hC
  cases exec_acts he with
  | rests hr => exact h.rests hr
  | pops => exact h.shrink (fun _ u hu ↦ .inr ⟨u, hu, .of_procs rfl⟩) rfl fun _ ↦ rfl
  | shuts hs =>
    rw [Manager.shutdown, if_neg (by simp [hs])]
    exact h.shrink (fun _ u hu ↦ .inr ⟨u, hu, .of_procs rfl⟩) rfl fun _ ↦ rfl
  | loads hl => exact h.loadAll hl
  | removes device => exact h.udevRemove
  | revives ht | resets _ ht => exact h.touches ht.toTouches
  | begins _ _ _ _ _ hr ho => exact (h.rests hr).doStart (by rwa [hr.pidUnit]) ho
  | stops _ _ _ hj ho => exact (h.jobsOnly hj).doStop (by rwa [hj.pidUnit]) ho
  | reloads ho => exact h.ends hnew (reload_ends ho .restart)
  | runs _ hr _ ho =>
    have hj := JobsOnly.completeJob ho
    exact (h.rests hr).setActive.jobsOnly hj
  | fails _ hj => exact h.setActive.jobsOnly hj
  | restarts _ _ ho =>
    have hs := h.doStart hnew ho
    exact hs
  | expires _ ho => exact h.ends hnew (Keeps.killTree.ends (finalizeStop_ends ho))
  | exits => exact absurd rfl (hp _ _)
  | mainExits => exact absurd rfl (hm _ _)

/-- What holds of every configuration that a run reaches: the exit of a main process is handled
as soon as it is brought about. -/
structure Delivers (a : Config Manager Call) : Prop where
  owned : Owned (delivering a.todo) a.state
  later : ∀ c ∈ a.todo.tail, ∀ n e, c ≠ .mainExit n e

theorem Delivers.step {rest : List Call} (h : Delivers ⟨m, c :: rest⟩) (hC : keepsPids w c m)
    (he : exec w c m = some out) : Delivers ⟨out.1, out.2 ++ rest⟩ := by
  have hrest : ∀ c ∈ rest, ∀ n e, c ≠ .mainExit n e := h.later
  have quiet (hno : ∀ c' ∈ out.2, ∀ n e, c' ≠ .mainExit n e) (ho : Owned none out.1) :
      Delivers ⟨out.1, out.2 ++ rest⟩ := by
    have hall : ∀ c' ∈ out.2 ++ rest, ∀ n e, c' ≠ .mainExit n e := fun c' hc' ↦
      (List.mem_append.mp hc').elim (hno c') (hrest c')
    exact ⟨by rw [delivering_none hall]; exact ho, fun c' hc' ↦ hall c' (List.mem_of_mem_tail hc')⟩
  by_cases hm : ∃ n e, c = .mainExit n e
  · obtain ⟨n, e, rfl⟩ := hm
    have hno : ∀ c' ∈ out.2, ∀ n e, c' ≠ .mainExit n e := fun c' hc' ↦
      exec_not_mainExit he (by simp) hc'
    exact quiet hno (Owned.mainExit h.owned (keepsPids_spawn hC) he)
  have hm : ∀ n e, c ≠ .mainExit n e := fun n e he ↦ hm ⟨n, e, he⟩
  have howned : Owned none m := by
    have := h.owned
    rwa [show delivering (c :: rest) = none from delivering_none fun c' hc' ↦
      (List.mem_cons.mp hc').elim (fun he ↦ he ▸ hm) (hrest c')] at this
  by_cases hp : ∃ pid e, c = .processExit pid e
  · obtain ⟨pid, e, rfl⟩ := hp
    have ho := processExit_owned howned hC he
    rcases processExit_calls he with hno | hone
    · rw [delivering_none hno] at ho
      exact quiet hno ho
    · obtain ⟨n, hone⟩ := hone
      rw [hone] at ho ⊢
      exact ⟨ho, hrest⟩
  · have hp : ∀ pid e, c ≠ .processExit pid e := fun pid e he ↦ hp ⟨pid, e, he⟩
    exact quiet (fun c' hc' ↦ exec_not_mainExit he hp hc') (exec_owned howned hC he hp hm)

end Rystemd
