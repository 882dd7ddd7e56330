import Rystemd.JobIndex
import Rystemd.Subjects

namespace Rystemd

open Worklist

/-- Every unit that a job, a process or a deadline belongs to is a key of `units`. -/
structure NamesLoaded (m : Manager) : Prop where
  jobs : ∀ id job, m.jobs.get id = some job → m.units.contains job.unit
  unitJob : ∀ n id, m.unitJob.get n = some id → m.units.contains n
  pidUnit : ∀ pid n, m.pidUnit.get pid = some n → m.units.contains n
  timers : ∀ n kind, kind.service → m.wheel.Armed n kind → m.units.contains n

variable {w : World} {c : Call} {m m' m'' : Manager} {name : Name} {out : Out} {id : JobId}
  {job : Job} {kind : JobKind} {s : ActiveState} {cs : List Call}

/-- Between `m` and `m'` no unit was lost, and what is new in the tables of processes and of
deadlines belongs to a loaded unit. -/
structure Binds (m m' : Manager) : Prop where
  loaded : ∀ n, (m.units.get n).isSome → (m'.units.get n).isSome
  pidUnit : ∀ pid n, m'.pidUnit.get pid = some n →
    m.pidUnit.get pid = some n ∨ (m'.units.get n).isSome
  timers : ∀ {n k}, k.service → m'.wheel.Armed n k → m.wheel.Armed n k ∨ (m'.units.get n).isSome

namespace Binds

theorem trans (h : Binds m m') (h' : Binds m' m'') : Binds m m'' where
  loaded n hn := h'.loaded n (h.loaded n hn)
  pidUnit pid n hp := by
    rcases h'.pidUnit pid n hp with hp | hn
    · exact (h.pidUnit pid n hp).imp_right (h'.loaded n)
    · exact .inr hn
  timers hk ha := by
    rcases h'.timers hk ha with ha | hn
    · exact (h.timers hk ha).imp_right (h'.loaded _)
    · exact .inr hn

theorem touches (h : Touches name m m') : Binds m m' where
  loaded n hn := by rwa [h.isSome]
  pidUnit pid n hp := .inl (by rwa [h.pidUnit] at hp)
  timers {n k} hk ha := (h.timers n k hk ha).imp_right fun hn ↦ by
    rw [hn.1, h.isSome]
    exact hn.2

theorem jobs (h : JobsOnly m m') : Binds m m' where
  loaded n hn := by rwa [h.units]
  pidUnit pid n hp := .inl (by rwa [h.pidUnit] at hp)
  timers hk ha := .inl (by rwa [h.wheel] at ha)

theorem rests (h : Rests c m m') : Binds m m' where
  loaded n hn := by
    obtain ⟨u, hu⟩ := Option.isSome_iff_exists.mp hn
    obtain ⟨u', hu', -⟩ := h.kept n u hu
    rw [hu']
    rfl
  pidUnit pid n hp := .inl (by rwa [h.pidUnit] at hp)
  timers hk ha := h.timers hk ha

theorem recordSpawn {cmd : ControlCommand} {idx : Nat} {pid : Pid} {main : Bool}
    (hu : (m.units.get name).isSome) : Binds m (m.recordSpawn name cmd idx pid main) where
  loaded n hn := by rwa [Local.recordSpawn.isSome]
  pidUnit pid' n hp := by
    simp only [Manager.recordSpawn, Table.get_insert] at hp
    split at hp
    · cases hp
      exact .inr (by rwa [Local.recordSpawn.isSome])
    · exact .inl hp
  timers _ ha := .inl ha

theorem adoptPid {pid : Pid} (hu : (m.units.get name).isSome) : Binds m (m.adoptPid name pid) where
  loaded n hn := by rwa [Local.adoptPid.isSome]
  pidUnit pid' n hp := by
    simp only [Manager.adoptPid, Table.get_insert] at hp
    split at hp
    · cases hp
      exact .inr (by rwa [Local.adoptPid.isSome])
    · exact .inl hp
  timers _ ha := .inl ha

theorem ends (h : Ends w name kind m out) : Binds m out.1 := by
  induction h with
  | waits hk => exact touches hk.toTouches
  | fails msg rest hk _ => exact touches hk.toTouches
  | completes hp _ ho _ =>
    have hj := JobsOnly.completeJob ho
    exact (touches hp.toTouches).trans (jobs hj)
  | stops hp ho =>
    have hj := JobsOnly.completeJob ho
    exact (touches hp.toTouches).trans (jobs hj)
  | spawns idx main hk hu _ _ _ _ _ ih =>
    have hu' := Option.isSome_of_isSome_bind hu
    exact ((touches hk.toTouches).trans (recordSpawn hu')).trans ih

theorem doStart (h : m.doStart w name = some out) : Binds m out.1 := by
  obtain ⟨m', ht, -, he⟩ := (doStart_begins h).ends
  exact (touches ht).trans (ends he)

theorem doStop (h : m.doStop w name = some out) : Binds m out.1 := by
  obtain ⟨m', hp, he⟩ := doStop_begins h
  exact (touches hp.toTouches).trans (ends he)

theorem scheduleRestart {delay : Nat} (hu : (m.units.get name).isSome) :
    Binds m (m.scheduleRestart w name delay) where
  loaded n hn := by rwa [scheduleRestart_local.isSome]
  pidUnit _ _ hp := .inl hp
  timers _ ha := by
    rcases TimerWheel.armed_of_schedule ha with ⟨rfl, -⟩ | ha
    · exact .inr (by rwa [scheduleRestart_local.isSome])
    · exact .inl ha

theorem activeExit (h : ActiveExit w name m out) : Binds m out.1 := by
  cases h with
  | limit hp | failed hp => exact touches hp.toTouches
  | restart delay hk hu => exact (touches hk.toTouches).trans (scheduleRestart hu)
  | ended hp _ ho =>
    have hj := JobsOnly.completeJob ho
    exact (touches hp.toTouches).trans (jobs hj)

theorem mainExit {exit : ChildExit} (h : m.mainExit w name exit = some out) : Binds m out.1 := by
  have hf : Binds m (m.forgetMain name) := touches Touches.forgetMain
  obtain ⟨u, -, h⟩ := mainExit_ends h
  refine hf.trans ?_
  cases h with
  | stopped _ he => exact ends he
  | vanished _ _ hp => exact touches hp.toTouches
  | fails _ hk => exact touches hk.toTouches
  | active _ _ he => exact activeExit he

theorem handleControlExit {exit : ChildExit} (h : m.handleControlExit w name exit = some out) :
    Binds m out.1 := by
  have hf : Binds m (m.forgetControl name) := touches Touches.forgetControl
  rcases handleControlExit_cases h with ⟨-, he⟩ | ⟨-, m', rfl | ⟨pid, rfl⟩, he⟩ | ⟨-, rfl⟩ | rfl
  · exact hf.trans (ends he)
  · exact hf.trans (ends he)
  · obtain ⟨u, hu, -⟩ := handleControlExit_ends h
    have hs : ((m.forgetControl name).units.get name).isSome := by
      rw [Touches.forgetControl.isSome, hu]
      rfl
    exact (hf.trans (adoptPid hs)).trans (ends he)
  · exact hf
  · exact hf

theorem forgetPid {pid : Pid} : Binds m (m.forgetPid pid) where
  loaded _ hn := hn
  pidUnit pid' n hp := by
    simp only [Manager.forgetPid, Table.get_remove] at hp
    split at hp
    · cases hp
    · exact .inl hp
  timers _ ha := .inl ha

theorem processExit {pid : Pid} {exit : ChildExit} (h : m.processExit w pid exit = some out) :
    Binds m out.1 := by
  cases processExit_cases h with
  | ignored | main => exact forgetPid
  | control _ _ _ _ h => exact forgetPid.trans (handleControlExit h)

end Binds

theorem exec_binds (h : exec w c m = some out) (hc : c.unloads = false) : Binds m out.1 := by
  have active {m₀ : Manager} {n : Name} {s : ActiveState} {sub : SubState} {r : UnitResult}
      (hs : m₀.activeOf n = some s) {s'} (hsub : sub ≠ .autoRestart) :
      Binds m₀ (m₀.setActive w n s' sub r) := by
    have hp : Puts n s' m₀ (m₀.setActive w n s' sub r) := .setActive (isSome_of_activeOf hs) hsub
    exact .touches hp.toTouches
  cases exec_acts h with
  | rests hr => exact .rests hr
  | pops => exact ⟨fun _ ↦ id, fun _ _ ↦ .inl, fun _ ha ↦ .inl (TimerWheel.popDue_armed ha)⟩
  | shuts hs =>
    rw [Manager.shutdown, if_neg (by simp [hs])]
    exact ⟨fun _ ↦ id, fun _ _ ↦ .inl, fun _ ha ↦ absurd ha TimerWheel.armed_empty⟩
  | loads | removes => cases hc
  | revives hp | resets _ hp => exact .touches hp.toTouches
  | begins _ _ _ _ _ hr ho => exact (Binds.rests hr).trans (.doStart ho)
  | stops _ _ _ hj ho => exact (Binds.jobs hj).trans (.doStop ho)
  | reloads ho => exact .ends (reload_ends ho .restart)
  | runs _ hr ha ho =>
    have hj := JobsOnly.completeJob ho
    exact ((Binds.rests hr).trans (active ha (by simp))).trans (.jobs hj)
  | fails hu hj =>
    obtain ⟨u, hu⟩ := Option.isSome_iff_exists.mp hu
    exact (active (s := u.active) (by rw [Manager.activeOf, hu]; rfl) (by simp)).trans (.jobs hj)
  | restarts _ _ ho =>
    have hs := Binds.doStart ho
    exact hs
  | expires _ ho => exact .ends (Keeps.killTree.ends (finalizeStop_ends ho))
  | exits ho => exact .processExit ho
  | mainExits ho => exact .mainExit ho

namespace Manager

/-- The units that jobs and processes belong to. -/
def owners (m : Manager) : List Name :=
  m.jobs.keys.filterMap (fun id ↦ (m.jobs.get id).map Job.unit) ++
    m.pidUnit.keys.filterMap m.pidUnit.get

/-- The units that the deadlines of services belong to. -/
def deadlineOwners (m : Manager) : List Name :=
  m.wheel.entries.keys.filterMap fun id ↦
    ((m.wheel.entries.get id).filter fun e ↦ e.kind.service).map TimerEntry.unit

/-- A reload finds the unit on disk, or it is one of a known device. -/
def reloadFinds (w : World) (m : Manager) (n : Name) : Bool :=
  w.discovered.contains n && (m.reloadUnit w n).isSome ||
    m.udevDevices.keys.any fun path ↦ (m.udevDevices.get path).any fun d ↦ d.unitNames.contains n

end Manager

/-- A reload finds every unit that a job or a process belongs to, and no unit is removed with its
device that a job, a process or a deadline belongs to. -/
def keepsReferenced (w : World) (c : Call) (m : Manager) : Bool :=
  match c with
  | .loadAll => m.owners.all (m.reloadFinds w)
  | .udevRemove device => (m.owners ++ m.deadlineOwners).all fun n ↦ !device.unitNames.contains n
  | _ => true

theorem mem_owners_of_job (h : m.jobs.get id = some job) : job.unit ∈ m.owners := by
  refine List.mem_append_left _ (List.mem_filterMap.mpr ⟨id, Table.mem_keys.mpr ⟨job, h⟩, ?_⟩)
  rw [h, Option.map_some]

theorem mem_owners_of_pid {pid : Pid} {n : Name} (h : m.pidUnit.get pid = some n) :
    n ∈ m.owners :=
  List.mem_append_right _ (List.mem_filterMap.mpr ⟨pid, Table.mem_keys.mpr ⟨n, h⟩, h⟩)

theorem mem_deadlineOwners {n : Name} {k : TimerKind} (hk : k.service) (h : m.wheel.Armed n k) :
    n ∈ m.deadlineOwners := by
  obtain ⟨id, e, he, rfl, rfl⟩ := h
  refine List.mem_filterMap.mpr ⟨id, Table.mem_keys.mpr ⟨e, he⟩, ?_⟩
  rw [he, Option.filter_some, if_pos hk, Option.map_some]

theorem reloadUnits_isSome {n : Name} (hn : n ∈ w.discovered) (hu : (m.reloadUnit w n).isSome) :
    ((m.reloadUnits w).get n).isSome := by
  rwa [reloadUnits_get_eq, if_pos hn]

theorem udevRegister_isSome {device : Device} {n : Name} (hn : n ∈ device.unitNames) :
    ((m.udevRegister w device).units.get n).isSome := by
  suffices ∀ (names : List Name) (t : Table Name Unit), n ∈ names ∨ (t.get n).isSome →
      ((names.foldl (Manager.registerDevice w) t).get n).isSome from this _ _ (.inl hn)
  intro names
  induction names with
  | nil => exact fun t ht ↦ ht.resolve_left (by simp)
  | cons a names ih =>
    refine fun t ht ↦ ih _ ?_
    have hadds := registerDevice_adds (w := w) t a
    by_cases ha : n = a
    · subst ha
      right
      unfold Manager.registerDevice
      split
      · assumption
      · rw [Table.get_insert_self]
        rfl
    · refine ht.imp (fun h ↦ (List.mem_cons.mp h).resolve_left ha) fun h ↦ ?_
      obtain ⟨u, hu⟩ := Option.isSome_iff_exists.mp h
      rw [hadds.kept n u hu]
      rfl

theorem udevRegisters_isSome {devices : List Device} {device : Device} {n : Name}
    (hd : device ∈ devices) (hn : n ∈ device.unitNames) (m : Manager) :
    ((devices.foldl (Manager.udevRegister w) m).units.get n).isSome := by
  induction devices generalizing m with
  | nil => cases hd
  | cons d devices ih =>
    rcases List.mem_cons.mp hd with rfl | hd
    · exact (udevRegisters_adds devices _).isSome (udevRegister_isSome hn)
    · exact ih hd _

/-- A reload loads what it finds. -/
theorem loadAll_isSome {n : Name} (h : m.loadAll w = some m') (hn : m.reloadFinds w n) :
    (m'.units.get n).isSome := by
  unfold Manager.loadAll at h
  extract_lets devices at h
  have hq : Quiet _ m' := .rearmTimers h
  rw [hq.isSome]
  simp only [Manager.reloadFinds, Bool.or_eq_true, Bool.and_eq_true, List.contains_iff_mem] at hn
  rcases hn with ⟨hd, hu⟩ | hd
  · exact (udevRegisters_adds devices _).isSome (reloadUnits_isSome hd hu)
  · obtain ⟨path, hp, hd⟩ := List.any_eq_true.mp hd
    obtain ⟨d, hd, hn⟩ := (Option.any_eq_true ..).mp hd
    have hmem : d ∈ devices := List.mem_filterMap.mpr ⟨path, hp, hd⟩
    exact udevRegisters_isSome hmem (List.contains_iff_mem.mp hn) _

theorem udevRemove_isSome {device : Device} {n : Name} (hn : n ∉ device.unitNames)
    (hu : (m.units.get n).isSome) : ((m.udevRemove device).units.get n).isSome := by
  have hget : (m.udevRemove device).units.get n = m.units.get n :=
    Table.get_foldl_remove_of_notMem _ hn _
  rwa [hget]

/-- The jobs and what they start next belong to loaded units. -/
def JobsLoaded (m : Manager) : Prop :=
  ∀ id job, m.jobs.get id = some job →
    (m.units.get job.unit).isSome ∧ ∀ n ∈ job.startAfterStop, n = job.unit

theorem JobsLoaded.nextIn (h : JobsLoaded m) : NextIn (fun n ↦ (m.units.get n).isSome) m := by
  intro id job n hj hn
  obtain ⟨hu, hnext⟩ := h id job hj
  rwa [hnext n hn]

theorem JobsLoaded.modifyJob (h : JobsLoaded m) {f : Job → Job}
    (hf : ∀ j, (f j).unit = j.unit ∧ (f j).startAfterStop = j.startAfterStop) :
    JobsLoaded (m.modifyJob id f) := by
  intro i job hj
  rw [Manager.modifyJob, Table.get_modify] at hj
  split at hj
  · obtain ⟨j, hj', rfl⟩ := Option.map_eq_some_iff.mp hj
    rw [(hf j).1, (hf j).2]
    exact h i j hj'
  · exact h i job hj

theorem JobsLoaded.newJob (h : JobsLoaded m) {mode : JobMode} {next : Option Name}
    (hu : (m.units.get name).isSome) (hn : ∀ n ∈ next, n = name) :
    JobsLoaded (m.newJob kind name mode next).2 := by
  intro i job hj
  rw [Manager.newJob, Table.get_insert] at hj
  split at hj
  · cases hj
    exact ⟨hu, hn⟩
  · exact h i job hj

theorem unitOperational_isSome (h : m.unitOperational name) : (m.units.get name).isSome := by
  obtain ⟨u, hu, -⟩ := (Option.any_eq_true ..).mp h
  rw [hu]
  rfl

theorem Enqueues.isSome {b : Manager} {mode : JobMode} {next : Option Name}
    (h : Enqueues c m kind name mode next) (hs : ∀ n ∈ c.subject, (b.units.get n).isSome)
    (hl : ∀ n, (b.units.get n).isSome → (m.units.get n).isSome) :
    (m.units.get name).isSome ∧ ∀ n ∈ next, n = name := by
  cases h with
  | start _ _ hu | ignoring _ _ hu => exact ⟨hu, by simp⟩
  | dependency name he | stopNext name _ he =>
    subst he
    exact ⟨hl _ (hs _ rfl), by simp⟩
  | stop _ _ ho => exact ⟨unitOperational_isSome ho, by simp⟩
  | restart _ _ ho => exact ⟨unitOperational_isSome ho, by simp⟩

/-- A call about a loaded unit that takes no unit out of the table keeps the units of the jobs
loaded. -/
theorem JobSteps.jobsLoaded {b : Manager} (h : JobSteps c b b m) (hc : c.unloads = false)
    (hs : ∀ n ∈ c.subject, (b.units.get n).isSome) (hb : JobsLoaded b) : JobsLoaded m := by
  suffices (∀ n, (b.units.get n).isSome → (m.units.get n).isSome) ∧ JobsLoaded m from this.2
  refine h.keeps (I := fun m ↦ (∀ n, (b.units.get n).isSome → (m.units.get n).isSome) ∧ JobsLoaded m)
    (fun {m m'} hstep ⟨hl, hm⟩ ↦ ?_) ⟨fun _ ↦ id, hb⟩
  have hl' : ∀ n, (b.units.get n).isSome → (m'.units.get n).isSome :=
    fun n hn ↦ JobSteps.loaded (.single hstep) hc n (hl n hn)
  refine ⟨hl', ?_⟩
  cases hstep with
  | same hsame hmono =>
    intro id job hj
    rw [hsame.jobs] at hj
    exact ⟨hmono hc _ (hm id job hj).1, (hm id job hj).2⟩
  | edits id hf => exact hm.modifyJob fun j ↦ ⟨(hf.same j).1, (hf.same j).2.2⟩
  | finishes => exact fun i job hj ↦ hm i job (Table.get_of_get_remove hj)
  | enqueues hq =>
    obtain ⟨hu, hn⟩ := hq.isSome hs hl
    exact hm.newJob hu hn
  | reindexes => exact hm
  | drops => exact fun i job hj ↦ hm i job (Table.get_of_get_remove hj)
  | forgets =>
    intro i job hj
    rw [Table.get_mapValues] at hj
    obtain ⟨job', hj', rfl⟩ := Option.map_eq_some_iff.mp hj
    exact hm i job' (Table.get_of_get_remove hj')

/-- What holds of every configuration that a run reaches in which no unit is lost that is
referred to. -/
structure Referring (a : Config Manager Call) : Prop where
  jobs : JobsLoaded a.state
  pidUnit : ∀ pid n, a.state.pidUnit.get pid = some n → (a.state.units.get n).isSome
  timers : ∀ n kind, kind.service → a.state.wheel.Armed n kind → (a.state.units.get n).isSome
  subjects : Subjects (fun n ↦ (a.state.units.get n).isSome) a.todo
  alone : Alone a.todo

theorem Referring.unloading {rest : List Call} (h : Referring ⟨m, c :: rest⟩)
    (hc : c.unloads) (he : exec w c m = some out) : rest = [] ∧ out.2 = [] := by
  cases c with
  | loadAll =>
    obtain ⟨m', -, rfl⟩ := Option.map_eq_some_iff.mp he
    exact ⟨h.alone.tail_nil rfl, rfl⟩
  | udevRemove =>
    cases he
    exact ⟨h.alone.tail_nil rfl, rfl⟩
  | _ => cases hc

theorem Referring.of_kept {a b : Config Manager Call} (h : Referring a) (hb : b.todo = [])
    (hj : b.state.jobs = a.state.jobs) (hp : b.state.pidUnit = a.state.pidUnit)
    (ho : ∀ n ∈ a.state.owners, (b.state.units.get n).isSome)
    (ht : ∀ n kind, kind.service → b.state.wheel.Armed n kind → (b.state.units.get n).isSome) :
    Referring b where
  jobs id job hj' := by
    rw [hj] at hj'
    exact ⟨ho _ (mem_owners_of_job hj'), (h.jobs id job hj').2⟩
  pidUnit pid n hp' := by
    rw [hp] at hp'
    exact ho n (mem_owners_of_pid hp')
  timers := ht
  subjects := by rw [hb]; exact .nil
  alone := by rw [hb]; simp [Alone]

theorem Referring.step {rest : List Call} (h : Referring ⟨m, c :: rest⟩)
    (hC : keepsReferenced w c m) (he : exec w c m = some (m', cs)) : Referring ⟨m', cs ++ rest⟩ := by
  cases hc : c.unloads with
  | false =>
    have hs := h.subjects c (List.mem_cons_self ..)
    have hb := exec_binds he hc
    refine ⟨(exec_jobSteps he).jobsLoaded hc hs h.jobs, fun pid n hp ↦ ?_, fun n k hk ha ↦ ?_, ?_,
      h.alone.step he⟩
    · exact (hb.pidUnit pid n hp).elim (fun hp ↦ hb.loaded n (h.pidUnit pid n hp)) id
    · exact (hb.timers hk ha).elim (fun ha ↦ hb.loaded n (h.timers n k hk ha)) id
    · have hnew := exec_subjects he hs h.jobs.nextIn h.pidUnit
      exact hnew.append fun c' hc' n hn ↦
        hb.loaded n (h.subjects c' (List.mem_cons_of_mem _ hc') n hn)
  | true =>
    obtain ⟨hrest, hcs⟩ := h.unloading hc he
    have htodo : cs ++ rest = [] := by rw [hrest, List.append_nil]; exact hcs
    cases c with
    | loadAll =>
      obtain ⟨m', hm', he⟩ := Option.map_eq_some_iff.mp he
      cases he
      obtain ⟨m₁, ha, hq, hs⟩ := loadAll_cases hm'
      refine h.of_kept htodo (hq.jobs.trans ha.jobs) (hs.pidUnit.trans ha.pidUnit)
        (fun n hn ↦ loadAll_isSome hm' (List.all_eq_true.mp hC n hn)) fun n k hk hk' ↦ ?_
      exact absurd (hs.wheel.service hk hk') TimerWheel.armed_empty
    | udevRemove device =>
      cases he
      have hn : ∀ n ∈ m.owners ++ m.deadlineOwners, n ∉ device.unitNames := by
        intro n hn hd
        have := List.all_eq_true.mp hC n hn
        simp [hd] at this
      refine h.of_kept htodo rfl rfl (fun n ho ↦ ?_) fun n k hk ha ↦ ?_
      · have hu : (m.units.get n).isSome := by
          rcases List.mem_append.mp ho with ho | ho
          · obtain ⟨id, -, hj⟩ := List.mem_filterMap.mp ho
            obtain ⟨job, hj', rfl⟩ := Option.map_eq_some_iff.mp hj
            exact (h.jobs id job hj').1
          · obtain ⟨pid, -, hp⟩ := List.mem_filterMap.mp ho
            exact h.pidUnit pid n hp
        exact udevRemove_isSome (hn n (List.mem_append_left _ ho)) hu
      · exact udevRemove_isSome (hn n (List.mem_append_right _ (mem_deadlineOwners hk ha)))
          (h.timers n k hk ha)
    | _ => cases hc

/-- If no unit is lost that is referred to, every unit that the tables name is loaded, and so is
every unit that a procedure still to be run is about. -/
theorem names_loaded {a : Config Manager Call} (h : Reaches (keepsReferenced · · ·) a) :
    NamesLoaded a.state ∧ ∀ c ∈ a.todo, ∀ n ∈ c.subject, a.state.units.contains n := by
  have hsound := h.sound.sound
  obtain ⟨m, hb, hr⟩ := h
  have hp := hb.pristine
  suffices Referring a by
    refine ⟨⟨fun id job hj ↦ (this.jobs id job hj).1, fun n id hx ↦ ?_, this.pidUnit, this.timers⟩,
      this.subjects⟩
    obtain ⟨job, hj, rfl⟩ := hsound.points n id hx
    exact (this.jobs id job hj).1
  refine hr.invariant (I := Referring) (fun h hc ↦ ?_) (fun h _ hc he ↦ h.step hc he) ?_
  · refine ⟨h.jobs, h.pidUnit, h.timers, ?_, .single _⟩
    refine .other ?_
    revert hc
    cases ‹Call› <;> simp [engine, external, Call.subject]
  · refine ⟨fun id job hj ↦ ?_, fun pid n hn ↦ ?_, fun n k hk ha ↦ ?_, .nil, by simp [Alone]⟩
    · rw [hp.jobs] at hj
      cases hj
    · rw [hp.pidUnit] at hn
      cases hn
    · exact absurd ha (hp.service n k hk)

/-- A machine with one service. -/
def plainMachine : World :=
  .ofFiles [("a.service", { service := some { execStart := [⟨["a"], false⟩] } })]

/-- The service runs. -/
def startPlain : List (Move Call World) :=
  [.arrive (.start "a.service" .replace), .calls { plainMachine with spawn := fun _ ↦ .ok 7 } 3,
    .calls plainMachine 20]

/-- The service runs through a reload. -/
def reloadedRunning : Shown (keepsReferenced · · ·) fun a ↦
    a.todo.isEmpty && a.state.pidUnit.get 7 = some "a.service" :=
  .play _ plainMachine (startPlain ++ [.arrive .loadAll, .calls plainMachine 1]) _ (by decide +kernel)

theorem names_loaded_reloaded : ∃ a, Reaches (keepsReferenced · · ·) a ∧
    (NamesLoaded a.state ∧ ∀ c ∈ a.todo, ∀ n ∈ c.subject, a.state.units.contains n) ∧
    (a.todo.isEmpty && a.state.pidUnit.get 7 = some "a.service") = true :=
  ⟨_, reloadedRunning.reached, names_loaded reloadedRunning.reached, reloadedRunning.shows⟩

/-- The file of the service is deleted while it runs, and the manager reloads. -/
def reloadedDeleted : Shown (fun _ _ _ ↦ True) fun a ↦
    a.state.pidUnit.get 7 = some "a.service" && !a.state.units.contains "a.service" :=
  .play _ plainMachine (startPlain ++ [.arrive .loadAll, .calls (.ofFiles []) 1]) _ (by decide +kernel)

/-- A reload forgets a unit whose process runs, and the exit of that process finds none. -/
theorem reload_forgets_running_unit :
    ¬ ∀ a, Reaches (fun _ _ _ ↦ True) a → NamesLoaded a.state := by
  intro h
  have hs := reloadedDeleted.shows
  simp only [Bool.and_eq_true, decide_eq_true_eq] at hs
  have hn := (h _ reloadedDeleted.reached).pidUnit 7 _ hs.1
  rw [hn] at hs
  simp at hs

end Rystemd
