import Rystemd.ExecSequence
import Rystemd.Outcomes

namespace Rystemd

namespace Manager

/-- The commands of a unit that have been run, the latest first. -/
def spawnsOf (m : Manager) (name : Name) : List (ControlCommand × Nat) :=
  m.kernel.effects.filterMap fun e ↦ match e with
    | .spawn n cmd idx _ => if n = name then some (cmd, idx) else none
    | _ => none

/-- How a job has ended, if it has. -/
def verdict (m : Manager) (jid : JobId) : Option Bool := (m.jobStatusOf jid).bind JobStatus.ok

/-- How an attempt goes on this machine. -/
def attempted (w : World) (sc : ServiceConfig) (cmd : ControlCommand) : Attempt :=
  if (spawnRefused w sc cmd).isSome then .refused
  else if (w.spawn cmd).toOption.isSome then .spawned
  else .failed

/-- The machine goes as the course says at the next command of each list, when `last` is the command
that has run last. -/
def Answers (c : Course) (sc : ServiceConfig) (w : World) (last : Option (ControlCommand × Nat)) :
    Prop :=
  ∀ cmd, attempted w sc cmd =
    c.attempt cmd (match last with
      | none => 0
      | some l => if cmd = l.1 then l.2 + 1 else 0)

/-- What the rest of the manager does while a command of the unit runs: the unit keeps its record,
its processes and its job. -/
structure Aside (name : Name) (m m' : Manager) : Prop where
  unit : m'.units.get name = m.units.get name
  owned : ∀ pid, m.pidUnit.get pid = some name → m'.pidUnit.get pid = some name
  unitJob : m'.unitJob.get name = m.unitJob.get name
  job : ∀ jid job, m.unitJob.get name = some jid → m.jobs.get jid = some job →
    ∃ job', m'.jobs.get jid = some job' ∧ job'.kind = job.kind
  spawns : m'.spawnsOf name = m.spawnsOf name

/-- The course of a start from the end of one procedure on: the commands whose exit is handled, and
the state once the start is decided. Only the process that the unit waits for exits. -/
inductive Goes (c : Course) (sc : ServiceConfig) (name : Name) :
    Out → List (ControlCommand × Nat) → Manager → Prop
  | fails {m : Manager} {msg : String} {w : World} {out : Out} : m.failUnit w name msg = some out →
      Goes c sc name (m, [.failUnit name msg]) [] out.1
  | decided {m : Manager} {calls : List Call} : calls ≠ [] → (∀ msg, .failUnit name msg ∉ calls) →
      Goes c sc name (m, calls) [] m
  | idle {m : Manager} {u : Unit} : m.units.get name = some u → u.controlPid = none →
      Goes c sc name (m, []) [] m
  | exits {m m' m'' : Manager} {u : Unit} {pid : Pid} {last : ControlCommand × Nat}
      {before exited : List (ControlCommand × Nat)} {w : World} {out : Out} :
      m.units.get name = some u → u.controlPid = some pid → m.spawnsOf name = last :: before →
      Aside name m m' → Answers c sc w (some last) →
      m'.processExit w pid (c.exit last.1 last.2) = some out → Goes c sc name out exited m'' →
      Goes c sc name (m, []) (last :: exited) m''

/-- The commands are run as the sequence says, each one once the one before has exited, the start
job ends as it says, and the unit is failed unless the start succeeds. -/
structure Sequenced (c : Course) (sc : ServiceConfig) (name : Name) (jid : JobId) (m m' : Manager)
    (exited : List (ControlCommand × Nat)) : Prop where
  inOrder : exited = (c.expected sc).1.map Turn.id
  spawned : m'.spawnsOf name = exited.reverse ++ m.spawnsOf name
  ok : m'.verdict jid = some true ↔ (c.expected sc).2
  failed : (c.expected sc).2 = false → m'.activeOf name = some .failed

/-- A unit with its start job, between two commands of its start. -/
structure Starting (sc : ServiceConfig) (name : Name) (jid : JobId) (u : Unit) (m : Manager) :
    Prop where
  unit : m.units.get name = some u
  kind : u.kind = .service
  config : u.serviceCfg = some sc
  active : u.active = .activating
  hasJob : m.unitJob.get name = some jid
  isStart : ∃ job, m.jobs.get jid = some job ∧ job.kind = .start

/-- A unit that waits for the exit of a command of its start. -/
structure Awaiting (sc : ServiceConfig) (name : Name) (jid : JobId) (last : ControlCommand × Nat)
    (before : List (ControlCommand × Nat)) (u : Unit) (m : Manager) : Prop
    extends Starting sc name jid u m where
  process : ∃ pid, u.controlPid = some pid ∧ m.pidUnit.get pid = some name
  command : u.controlCommand = some last.1
  index : last.1 = .start → u.cmdIndex = last.2
  spawns : m.spawnsOf name = last :: before

section Steps

variable {w : World} {c : Course} {sc : ServiceConfig} {name : Name} {jid : JobId} {u : Unit}
  {m m' : Manager} {last : ControlCommand × Nat} {before : List (ControlCommand × Nat)} {out : Out}

/-- Signals run no command. -/
theorem spawnsOf_signals (h : Signals m m') : m'.spawnsOf name = m.spawnsOf name := by
  obtain ⟨es, hes, hplain⟩ := h
  have hnone : es.filterMap (fun e ↦ match e with
      | .spawn n cmd idx _ => if n = name then some (cmd, idx) else none
      | _ => none) = [] := by
    apply List.filterMap_eq_nil_iff.mpr
    intro e he
    have hsig := hplain e he
    cases e with
    | spawn => cases hsig
    | killCgroup => rfl
    | killGroup => rfl
  rw [spawnsOf, hes, List.filterMap_append, hnone, List.nil_append, spawnsOf]

theorem get_modifyUnit_self {f : Unit → Unit} (hu : m.units.get name = some u) :
    (m.modifyUnit name f).units.get name = some (f u) := by
  rw [modifyUnit, Table.get_modify, if_pos rfl, hu, Option.map_some]

theorem Starting.of_unit {u' : Unit} (h : Starting sc name jid u m)
    (hu : m'.units.get name = some u') (hk : u'.kind = u.kind) (hf : u'.file = u.file)
    (ha : u'.active = u.active) (hx : m'.unitJob = m.unitJob) (hj : m'.jobs = m.jobs) :
    Starting sc name jid u' m' where
  unit := hu
  kind := hk.trans h.kind
  config := by rw [← h.config, Unit.serviceCfg, hf, Unit.serviceCfg]
  active := ha.trans h.active
  hasJob := by rw [hx, h.hasJob]
  isStart := by rw [hj]; exact h.isStart

/-- What a start comes to, as the manager shows it. -/
structure Comes (name : Name) (jid : JobId) (r : Course.Outcome) (m m' : Manager)
    (exited : List (ControlCommand × Nat)) : Prop where
  inOrder : exited = r.1.map Turn.id
  spawned : m'.spawnsOf name = exited.reverse ++ m.spawnsOf name
  ended : m'.verdict jid = r.2
  failed : r.2 = some false → m'.activeOf name = some .failed
  undecided : r.2 = none → m'.activeOf name = some .activating

variable {r : Course.Outcome} {exited : List (ControlCommand × Nat)} {m'' : Manager}

theorem Comes.of_spawns (h : Comes name jid r m' m'' exited)
    (hs : m'.spawnsOf name = m.spawnsOf name) : Comes name jid r m m'' exited :=
  ⟨h.inOrder, by rw [h.spawned, hs], h.ended, h.failed, h.undecided⟩

theorem Comes.cons {t : Turn} (h : Comes name jid r m' m'' exited)
    (hs : m'.spawnsOf name = t.id :: m.spawnsOf name) :
    Comes name jid (t :: r.1, r.2) m m'' (t.id :: exited) where
  inOrder := by rw [h.inOrder, List.map_cons]
  spawned := by rw [h.spawned, hs, List.reverse_cons, List.append_assoc, List.singleton_append]
  ended := h.ended
  failed := h.failed
  undecided := h.undecided

theorem completed_comes {job : Job} (hx : m.unitJob.get name = some jid)
    (hj : m.jobs.get jid = some job) (hk : job.kind = .start)
    (h : m.completeStartJob w name = some out) (hg : Goes c sc name out exited m') :
    Comes name jid ([], some true) m m' exited := by
  obtain ⟨hnone, -⟩ | ⟨jid', job', hx', hj', ⟨-, rfl⟩ | ⟨hk', -⟩⟩ := completeJob_cases h
  · rw [hx] at hnone
    cases hnone
  · obtain rfl : jid = jid' := Option.some.inj (hx.symm.trans hx')
    have hcalls : ((m.finishJob w jid).andThen [.timerDepCheck]).2 =
        (m.finishJob w jid).2 ++ [.timerDepCheck] := rfl
    have hlast : Goes c sc name ((m.finishJob w jid).1, (m.finishJob w jid).2 ++ [.timerDepCheck])
        exited m' := hg
    generalize hcs : (m.finishJob w jid).2 ++ [Call.timerDepCheck] = calls at hlast
    have hplain : ∀ msg, .failUnit name msg ∉ calls := by
      intro msg hmem
      rw [← hcs] at hmem
      obtain hmem | hmem := List.mem_append.mp hmem
      · exact (finishJob_plain w m name jid).2 msg hmem
      · simp at hmem
    have hne : calls ≠ [] := by
      rw [← hcs]
      exact List.append_ne_nil_of_right_ne_nil _ (List.cons_ne_nil _ _)
    cases hlast with
    | fails => exact absurd List.mem_cons_self (hplain _)
    | decided =>
      refine ⟨rfl, ?_, ?_, nofun, nofun⟩
      · simp [finishJob, hj, spawnsOf, removeJob, recordJobResult]
      · simp [finishJob, verdict, jobStatusOf, removeJob, recordJobResult, hj]
    | idle => exact absurd rfl hne
    | exits => exact absurd rfl hne
  · obtain rfl : jid = jid' := Option.some.inj (hx.symm.trans hx')
    obtain rfl : job = job' := Option.some.inj (hj.symm.trans hj')
    simp [hk] at hk'

theorem finishJobFailed_ended (w : World) (name : Name) {job : Job}
    (hj : m.jobs.get jid = some job) :
    (m.finishJobFailed w jid).1.verdict jid = some false ∧
      (m.finishJobFailed w jid).1.spawnsOf name = m.spawnsOf name ∧
      (m.finishJobFailed w jid).1.units = m.units := by
  unfold finishJobFailed
  rw [hj]
  refine ⟨?_, rfl, rfl⟩
  simp [verdict, jobStatusOf, removeJob, recordJobResult, hj]

theorem failed_comes {msg : String} (hs : Starting sc name jid u m)
    (hg : Goes c sc name (m, [.failUnit name msg]) exited m') :
    Comes name jid ([], some false) m m' exited := by
  obtain ⟨job, hj, hk⟩ := hs.isStart
  cases hg with
  | decided _ hplain => exact absurd List.mem_cons_self (hplain msg)
  | @fails _ _ w out h =>
    obtain ⟨m₁, hp, ⟨jid', job', hx', hj', -, rfl⟩ | ⟨hnot, -⟩⟩ := failUnit_ends h
    · obtain rfl : jid = jid' := Option.some.inj (hs.hasJob.symm.trans hx')
      have hj₁ : ∃ job', (m₁.modifyJob jid fun job ↦
          { job with failedMsg := some msg }).jobs.get jid = some job' := by
        rw [modifyJob, Table.get_modify, if_pos rfl, hp.jobs, hj, Option.map_some]
        exact ⟨_, rfl⟩
      obtain ⟨job', hj'⟩ := hj₁
      obtain ⟨hended, hspawns, hunits⟩ := finishJobFailed_ended w name hj'
      refine ⟨rfl, hspawns.trans (spawnsOf_signals hp.signals), hended, fun _ ↦ ?_, nofun⟩
      rw [← hp.active]
      exact congrArg (fun t : Table Name Unit ↦ (t.get name).map Unit.active) hunits
    · exact absurd hk (hnot jid job hs.hasJob hj)

/-- How an attempt to run a command of a start ends. -/
inductive Tried (w : World) (sc : ServiceConfig) (name : Name) (jid : JobId) (cmd : ControlCommand)
    (idx : Nat) (ignoreFailure : Bool) (u : Unit) (m : Manager) (done : Manager → Option Out) :
    Out → Prop
  | refused {u' : Unit} {m' : Manager} {msg : String} : attempted w sc cmd = .refused →
      Starting sc name jid u' m' → m'.spawnsOf name = m.spawnsOf name →
      Tried w sc name jid cmd idx ignoreFailure u m done (m', [.failUnit name msg])
  | failed {u' : Unit} {m' : Manager} {msg : String} : attempted w sc cmd = .failed →
      ignoreFailure = false → Starting sc name jid u' m' → m'.spawnsOf name = m.spawnsOf name →
      Tried w sc name jid cmd idx ignoreFailure u m done (m', [.failUnit name msg])
  | ignored {u' : Unit} {m' : Manager} {out : Out} : attempted w sc cmd = .failed →
      ignoreFailure = true → Starting sc name jid u' m' → u'.controlPid = u.controlPid →
      u'.cmdIndex = u.cmdIndex → m'.spawnsOf name = m.spawnsOf name → done m' = some out →
      Tried w sc name jid cmd idx ignoreFailure u m done out
  | spawned {u' : Unit} {m' : Manager} : attempted w sc cmd = .spawned → u'.cmdIndex = u.cmdIndex →
      Awaiting sc name jid (cmd, idx) (m.spawnsOf name) u' m' →
      Tried w sc name jid cmd idx ignoreFailure u m done (m', [])

variable {cmd : ControlCommand} {idx : Nat} {exec : ExecCommand} {done : Manager → Option Out}

theorem Starting.setResult (hs : Starting sc name jid u m) (r : UnitResult) :
    Starting sc name jid { u with result := r } (m.setResult name r) :=
  hs.of_unit (get_modifyUnit_self hs.unit) rfl rfl rfl rfl rfl

theorem spawned_awaiting {pid : Pid} (hs : Starting sc name jid u m)
    (hm : sc.serviceType.tracksMain = false) (hidx : cmd = .start → u.cmdIndex = idx)
    (h : m.spawned w name sc cmd idx pid = some out) :
    ∃ u' m', out = (m', []) ∧ u'.cmdIndex = u.cmdIndex ∧
      Awaiting sc name jid (cmd, idx) (m.spawnsOf name) u' m' := by
  unfold spawned at h
  rw [hm, Bool.and_false] at h
  cases h
  have hu : (m.recordSpawn name cmd idx pid false).units.get name = _ := get_modifyUnit_self hs.unit
  have hu' := get_modifyUnit_self (f := fun u ↦
    if cmd = .start ∧ sc.serviceType ≠ .forking then { u with sub := .start } else u) hu
  refine ⟨_, _, rfl, ?_, hs.of_unit hu' ?_ ?_ ?_ rfl rfl, ⟨pid, ?_, Table.get_insert_self⟩, ?_,
    fun hc ↦ ?_, ?_⟩
  · split <;> rfl
  · split <;> rfl
  · split <;> rfl
  · split <;> rfl
  · split <;> rfl
  · split <;> rfl
  · rw [← hidx hc]
    split <;> rfl
  · simp [spawnsOf, armTimeout, modifyUnit, recordSpawn]

theorem spawnCommand_tried (hs : Starting sc name jid u m)
    (hm : sc.serviceType.tracksMain = false) (hcmd : cmd ≠ .stop)
    (hidx : cmd = .start → u.cmdIndex = idx) (he : (execSlice sc cmd)[idx]? = some exec)
    (h : m.spawnCommand w name cmd idx done = some out) :
    Tried w sc name jid cmd idx exec.ignoreFailure u m done out := by
  obtain ⟨u', hu, h⟩ := Option.bind_eq_some_iff.mp h
  obtain rfl : u = u' := Option.some.inj (hs.unit.symm.trans hu)
  rw [hs.config] at h
  simp only [he] at h
  split at h
  · next result msg hr =>
    cases h
    refine .refused (by simp [attempted, hr]) (hs.setResult result) rfl
  · next hr =>
    have hc : Starting sc name jid { u with cgroup := u.cgroup.or w.cgroup }
        (m.ensureCgroup w name) :=
      hs.of_unit (get_modifyUnit_self hs.unit) rfl rfl rfl rfl rfl
    split at h
    · next pid hp =>
      obtain ⟨u', m', rfl, hi, ha⟩ := spawned_awaiting hc hm hidx h
      exact .spawned (by simp [attempted, hr, hp, Except.toOption]) hi ha
    · next e hp =>
      have hfailed : attempted w sc cmd = .failed := by simp [attempted, hr, hp, Except.toOption]
      split at h
      · next hi =>
        exact .ignored hfailed (by simpa [hcmd] using hi) hc rfl rfl rfl h
      · next hi =>
        cases h
        exact .failed hfailed (by simpa [hcmd] using hi) (hc.setResult .exec) rfl

/-- The exit of a control command while no stop is in progress. -/
theorem processExit_control {pid : Pid} {exit : ChildExit} (ho : m.pidUnit.get pid = some name)
    (hu : m.units.get name = some u) (hk : u.kind = .service) (hp : u.controlPid = some pid)
    (hc : u.controlCommand ≠ some .stop) (ha : u.active = .activating) :
    m.processExit w pid exit =
      ((m.forgetPid pid).forgetControl name).controlExited w name u exit := by
  have hu' : (m.forgetPid pid).units.get name = some u := hu
  have hhandled : (m.forgetPid pid).handleControlExit w name exit =
      ((m.forgetPid pid).forgetControl name).controlExited w name u exit := by
    unfold handleControlExit
    rw [hu']
    simp [hc, ha]
  rw [← hhandled]
  unfold processExit
  rw [ho]
  simp only [hu', Option.any_some, hk, hp]
  simp

/-- The only way on from a command that runs is its exit. -/
theorem awaiting_exits (ha : Awaiting sc name jid last before u m) (hstop : last.1 ≠ .stop)
    (hg : Goes c sc name (m, []) exited m'') :
    ∃ w m₁ u₁ out exited', exited = last :: exited' ∧ Answers c sc w (some last) ∧
      Starting sc name jid u₁ m₁ ∧ u₁.controlPid = none ∧ u₁.cmdIndex = u.cmdIndex ∧
      m₁.spawnsOf name = last :: before ∧
      m₁.controlExited w name u (c.exit last.1 last.2) = some out ∧
      Goes c sc name out exited' m'' := by
  obtain ⟨pid, hpid, howner⟩ := ha.process
  cases hg with
  | decided hne => exact absurd rfl hne
  | idle hu hnone =>
    obtain rfl : u = _ := Option.some.inj (ha.unit.symm.trans hu)
    rw [hpid] at hnone
    cases hnone
  | @exits _ m' _ _ pid' last' before' exited' w out hu hpid' hspawns haside hans hexit hgoes =>
    obtain rfl : u = _ := Option.some.inj (ha.unit.symm.trans hu)
    obtain rfl : pid = pid' := Option.some.inj (hpid.symm.trans hpid')
    obtain ⟨rfl, rfl⟩ := List.cons.inj (ha.spawns.symm.trans hspawns)
    have hunit : m'.units.get name = some u := haside.unit.trans ha.unit
    have hcmd : u.controlCommand ≠ some .stop := by
      rw [ha.command]
      exact fun h ↦ hstop (Option.some.inj h)
    rw [processExit_control (haside.owned pid howner) hunit ha.kind hpid hcmd ha.active] at hexit
    have hforgot : ((m'.forgetPid pid).forgetControl name).units.get name =
        some { u with controlPid := none, groupPid := none, controlCommand := none } :=
      get_modifyUnit_self hunit
    refine ⟨w, (m'.forgetPid pid).forgetControl name,
      { u with controlPid := none, groupPid := none, controlCommand := none }, out, exited', rfl, hans,
      ?_, rfl, rfl, haside.spawns.trans ha.spawns, hexit, hgoes⟩
    obtain ⟨job, hj, hk⟩ := ha.isStart
    obtain ⟨job', hj', hk'⟩ := haside.job jid job ha.hasJob hj
    exact ⟨hforgot, ha.kind, ha.config, ha.active, haside.unitJob.trans ha.hasJob,
      job', hj', hk'.trans hk⟩

theorem oneshotDone_comes (hs : Starting sc name jid u m) (h : m.oneshotDone w name = some out)
    (hg : Goes c sc name out exited m') : Comes name jid ([], some true) m m' exited := by
  obtain ⟨u', -, h⟩ := Option.bind_eq_some_iff.mp h
  obtain ⟨job, hj, hk⟩ := hs.isStart
  extract_lets s at h
  have hcomes := completed_comes (m := m.setActive w name s.1 s.2 .success) hs.hasJob hj hk h hg
  exact hcomes.of_spawns rfl

theorem execSlice_turns (cmd : ControlCommand) :
    (execSlice sc cmd = [] ∧ c.turns sc cmd = []) ∨
      ∃ e es, execSlice sc cmd = e :: es ∧
        c.turns sc cmd = c.turn sc cmd 0 e :: c.turnsFrom sc cmd 1 es := by
  unfold Course.turns
  cases h : execSlice sc cmd with
  | nil => exact .inl ⟨rfl, rfl⟩
  | cons e es => exact .inr ⟨e, es, rfl, rfl⟩

theorem idle_comes (hs : Starting sc name jid u m') (hsp : m'.spawnsOf name = m.spawnsOf name) :
    Comes name jid ([], none) m m' [] := by
  obtain ⟨job, hj, -⟩ := hs.isStart
  refine ⟨rfl, hsp, ?_, nofun, fun _ ↦ ?_⟩
  · simp [verdict, jobStatusOf, hj]
  · rw [activeOf, hs.unit, Option.map_some, hs.active]

/-- What comes after `ExecStart=`. -/
theorem post_comes (hs : Starting sc name jid u m) (hp : u.controlPid = none)
    (hm : sc.serviceType.tracksMain = false)
    (ha : attempted w sc .startPost = c.attempt .startPost 0)
    (h : m.runStartPostOrFinish w name = some out) (hg : Goes c sc name out exited m') :
    Comes name jid (Turn.madePost (c.turns sc .startPost)) m m' exited := by
  obtain ⟨u', hu, h⟩ := Option.bind_eq_some_iff.mp h
  obtain rfl : u = u' := Option.some.inj (hs.unit.symm.trans hu)
  rw [hs.config, Option.any_some] at h
  obtain ⟨hnil, hturns⟩ | ⟨e, es, hcons, hturns⟩ := execSlice_turns (.startPost)
  · have hnil' : sc.execStartPost = [] := hnil
    rw [hnil'] at h
    rw [hturns]
    exact oneshotDone_comes hs h hg
  · have hcons' : sc.execStartPost = e :: es := hcons
    rw [hcons', if_pos (by rfl)] at h
    have htried : Tried w sc name jid .startPost 0 e.ignoreFailure u m _ out :=
      spawnCommand_tried hs hm (by decide) (fun hc ↦ absurd hc (by decide)) (by rw [hcons]; rfl) h
    rw [hturns]
    cases htried with
    | refused hat hs' hsp =>
      have hmade : Turn.madePost (c.turn sc .startPost 0 e :: c.turnsFrom sc .startPost 1 es) =
          ([], some false) := by
        simp only [Turn.madePost, Course.turn, ← ha, hat]
      rw [hmade]
      exact (failed_comes hs' hg).of_spawns hsp
    | failed hat hi hs' hsp =>
      have hmade : Turn.madePost (c.turn sc .startPost 0 e :: c.turnsFrom sc .startPost 1 es) =
          ([], some false) := by
        simp [Turn.madePost, Course.turn, ← ha, hat, hi]
      rw [hmade]
      exact (failed_comes hs' hg).of_spawns hsp
    | @ignored u' m₁ _ hat hi hs' hp' _ hsp hd =>
      have hmade : Turn.madePost (c.turn sc .startPost 0 e :: c.turnsFrom sc .startPost 1 es) =
          ([], none) := by
        simp [Turn.madePost, Course.turn, ← ha, hat, hi]
      rw [hmade]
      cases hd
      cases hg with
      | decided hne => exact absurd rfl hne
      | idle => exact idle_comes hs' hsp
      | exits hu' hpid =>
        obtain rfl : u' = _ := Option.some.inj (hs'.unit.symm.trans hu')
        rw [hp', hp] at hpid
        cases hpid
    | spawned hat _ haw =>
      have hmade : Turn.madePost (c.turn sc .startPost 0 e :: c.turnsFrom sc .startPost 1 es) =
          ([c.turn sc .startPost 0 e], some true) := by
        simp only [Turn.madePost, Course.turn, ← ha, hat]
      rw [hmade]
      obtain ⟨w', m₁, u₁, out', exited', rfl, -, hs', -, -, hsp, hexit, hg'⟩ :=
        awaiting_exits haw (by decide) hg
      have hdone : m₁.oneshotDone w' name = some out' := by
        rw [← hexit, controlExited, haw.command]
      exact (oneshotDone_comes hs' hdone hg').cons hsp

theorem forkingDone_comes (hs : Starting sc name jid u m)
    (h : m.handleForkingStartDone w name = some out) (hg : Goes c sc name out exited m') :
    Comes name jid ([], some true) m m' exited := by
  obtain ⟨u', -, h⟩ := Option.bind_eq_some_iff.mp h
  obtain ⟨job, hj, hk⟩ := hs.isStart
  extract_lets m₁ at h
  have hm₁ : m₁.unitJob = m.unitJob ∧ m₁.jobs = m.jobs ∧ m₁.spawnsOf name = m.spawnsOf name := by
    simp only [m₁]
    cases readForkedPidfile w u' with
    | none => exact ⟨rfl, rfl, rfl⟩
    | some pid => exact ⟨rfl, rfl, rfl⟩
  have hx : m₁.unitJob.get name = some jid := by rw [hm₁.1, hs.hasJob]
  have hj₁ : m₁.jobs.get jid = some job := by rw [hm₁.2.1, hj]
  have hcomes := completed_comes (m := m₁.setActive w name .active .running .success) hx hj₁ hk h hg
  exact hcomes.of_spawns hm₁.2.2

/-- What the exit of a command of `ExecStart=` leads to. -/
theorem controlExited_start {t : Turn} (hu : u.serviceCfg = some sc)
    (hc : u.controlCommand = some .start)
    (hi : u.cmdIndex = idx) (he : sc.execStart[idx]? = some exec)
    (ht : t = c.turn sc .start idx exec) (hr : t.runs)
    (htype : sc.serviceType = .oneshot ∨ sc.serviceType = .forking)
    (h : m.controlExited w name u (c.exit .start idx) = some out) :
    (sc.serviceType = .oneshot ∧ t.passes ∧
        if idx + 1 < sc.execStart.length then
          (m.modifyUnit name fun u ↦ { u with cmdIndex := idx + 1 }).runMainStart w name (idx + 1) =
            some out
        else (m.modifyUnit name fun u ↦ { u with cmdIndex := 0 }).runStartPostOrFinish w name =
          some out) ∨
      (sc.serviceType = .oneshot ∧ t.passes = false ∧
        ∃ msg, out = (m.setResult name .exitCode, [.failUnit name msg])) ∨
      (sc.serviceType = .forking ∧ m.handleForkingStartDone w name = some out) := by
  have hpasses : (u.exitOk (c.exit .start idx) || exec.ignoreFailure) = t.passes := by
    rw [Turn.passes, hr, ht, Bool.true_and, Bool.or_comm]
    simp [Course.turn, Unit.exitOk, hu]
  unfold controlExited at h
  simp only [hc, hu, hi, he, Option.bind_some, Option.any_some, decide_true, Bool.true_and,
    Option.map_some, Option.getD_some, hpasses] at h
  obtain ho | hf := htype
  · simp only [ho] at h
    cases hp : t.passes with
    | true =>
      simp only [hp, if_true] at h
      refine .inl ⟨ho, rfl, ?_⟩
      split at h
      · next hlt => rwa [if_pos (by simpa using hlt)]
      · next hlt => rwa [if_neg (by simpa using hlt)]
    | false =>
      simp only [hp] at h
      cases h
      exact .inr (.inl ⟨ho, rfl, _, rfl⟩)
  · simp only [hf] at h
    exact .inr (.inr ⟨hf, h⟩)

theorem controlExited_pre {exit : ChildExit} (hu : u.serviceCfg = some sc)
    (hc : u.controlCommand = some .startPre) (h : m.controlExited w name u exit = some out) :
    (sc.effectiveExitSuccess.accepts exit = true ∧ m.runMainStart w name 0 = some out) ∨
      (sc.effectiveExitSuccess.accepts exit = false ∧
        ∃ msg, out = (m.setResult name .exitCode, [.failUnit name msg])) := by
  have hok : u.exitOk exit = sc.effectiveExitSuccess.accepts exit := by simp [Unit.exitOk, hu]
  unfold controlExited at h
  rw [hc] at h
  simp only [hok] at h
  cases ha : sc.effectiveExitSuccess.accepts exit with
  | true => exact .inl ⟨rfl, by simpa [ha] using h⟩
  | false =>
    simp [ha] at h
    exact .inr ⟨rfl, _, h.symm⟩

theorem drop_cons {α : Type} {l es : List α} {e : α} {i : Nat} (h : l.drop i = e :: es) :
    l[i]? = some e ∧ l.length = i + 1 + es.length ∧ l.drop (i + 1) = es := by
  refine ⟨?_, ?_, ?_⟩
  · rw [← List.head?_drop, h, List.head?_cons]
  · have hlen := congrArg List.length h
    rw [List.length_drop, List.length_cons] at hlen
    omega
  · rw [← List.tail_drop, h, List.tail_cons]

/-- One command of `ExecStart=`, given what comes of the next ones. -/
theorem start_step {es : List ExecCommand} (hm : sc.serviceType.tracksMain = false)
    (htype : sc.serviceType = .oneshot ∨ sc.serviceType = .forking)
    (he : sc.execStart[idx]? = some exec) (hlen : sc.execStart.length = idx + 1 + es.length)
    (hs : Starting sc name jid u m) (hi : u.cmdIndex = idx)
    (ha : attempted w sc .start = c.attempt .start idx)
    (h : m.runMainStart w name idx = some out) (hg : Goes c sc name out exited m'')
    (next : ∀ u' m' w' out' exited', es ≠ [] → Starting sc name jid u' m' →
      u'.cmdIndex = idx + 1 → attempted w' sc .start = c.attempt .start (idx + 1) →
      m'.runMainStart w' name (idx + 1) = some out' → Goes c sc name out' exited' m'' →
      Comes name jid (Turn.madeStart sc.serviceType (c.turns sc .startPost)
        (c.turnsFrom sc .start (idx + 1) es)) m' m'' exited') :
    Comes name jid (Turn.madeStart sc.serviceType (c.turns sc .startPost)
      (c.turnsFrom sc .start idx (exec :: es))) m m'' exited := by
  have htried : Tried w sc name jid .start idx exec.ignoreFailure u m _ out :=
    spawnCommand_tried hs hm (by decide) (fun _ ↦ hi) he h
  rw [Course.turnsFrom, Turn.madeStart]
  have hat : (c.turn sc .start idx exec).attempt = attempted w sc .start := ha.symm
  rw [hat]
  cases htried with
  | refused hat hs' hsp =>
    rw [hat]
    exact (failed_comes hs' hg).of_spawns hsp
  | failed hat hf hs' hsp =>
    have hmark : (c.turn sc .start idx exec).ignoreFailure = false := hf
    rw [hat, hmark]
    exact (failed_comes hs' hg).of_spawns hsp
  | ignored hat hf hs' _ _ hsp hd =>
    have hmark : (c.turn sc .start idx exec).ignoreFailure = true := hf
    rw [hat, hmark]
    exact (oneshotDone_comes hs' hd hg).of_spawns hsp
  | spawned hspawned _ haw =>
    rw [hspawned]
    have hr : (c.turn sc .start idx exec).runs := Turn.runs_eq.mpr (hat.trans hspawned)
    obtain ⟨w', m₁, u₁, out', exited', rfl, hans, hs', hp', -, hsp, hexit, hg'⟩ :=
      awaiting_exits haw (by simp) hg
    obtain ⟨ho, hpass, hgo⟩ | ⟨ho, hpass, msg, rfl⟩ | ⟨hf, hdone⟩ :=
      controlExited_start haw.config haw.command (haw.index rfl) he rfl hr htype hexit
    · rw [ho, if_neg (by simp), if_pos hpass]
      refine Comes.cons ?_ hsp
      split at hgo
      · next hlt =>
        have hne : es ≠ [] := by
          rintro rfl
          simp at hlen
          omega
        rw [← ho]
        have hs₁ : Starting sc name jid { u₁ with cmdIndex := idx + 1 }
            (m₁.modifyUnit name fun u ↦ { u with cmdIndex := idx + 1 }) :=
          hs'.of_unit (get_modifyUnit_self hs'.unit) rfl rfl rfl rfl rfl
        have hnext : attempted w' sc .start = c.attempt .start (idx + 1) := hans .start
        exact (next _ _ w' _ _ hne hs₁ rfl hnext hgo hg').of_spawns rfl
      · next hlt =>
        have hnil : es = [] := List.length_eq_zero_iff.mp (by omega)
        have hs₁ : Starting sc name jid { u₁ with cmdIndex := 0 }
            (m₁.modifyUnit name fun u ↦ { u with cmdIndex := 0 }) :=
          hs'.of_unit (get_modifyUnit_self hs'.unit) rfl rfl rfl rfl rfl
        have hpost : attempted w' sc .startPost = c.attempt .startPost 0 := hans .startPost
        rw [hnil]
        exact (post_comes hs₁ hp' hm hpost hgo hg').of_spawns rfl
    · rw [ho, if_neg (by simp), hpass]
      exact ((failed_comes (hs'.setResult .exitCode) hg').of_spawns rfl).cons hsp
    · rw [hf, if_pos rfl]
      exact (forkingDone_comes hs' hdone hg').cons hsp

/-- The commands of `ExecStart=` from the `idx`-th on. -/
theorem start_comes {es : List ExecCommand} (hm : sc.serviceType.tracksMain = false)
    (htype : sc.serviceType = .oneshot ∨ sc.serviceType = .forking)
    (hlist : sc.execStart.drop idx = exec :: es) (hs : Starting sc name jid u m)
    (hi : u.cmdIndex = idx) (ha : attempted w sc .start = c.attempt .start idx)
    (h : m.runMainStart w name idx = some out) (hg : Goes c sc name out exited m'') :
    Comes name jid (Turn.madeStart sc.serviceType (c.turns sc .startPost)
      (c.turnsFrom sc .start idx (exec :: es))) m m'' exited := by
  induction es generalizing idx exec m u w out exited with
  | nil =>
    obtain ⟨he, hlen, -⟩ := drop_cons hlist
    exact start_step hm htype he hlen hs hi ha h hg fun _ _ _ _ _ hne ↦ absurd rfl hne
  | cons e es ih =>
    obtain ⟨he, hlen, hrest⟩ := drop_cons hlist
    exact start_step hm htype he hlen hs hi ha h hg
      fun _ _ _ _ _ _ hs' hi' ha' h' hg' ↦ ih hrest hs' hi' ha' h' hg'

theorem main_comes (hm : sc.serviceType.tracksMain = false)
    (htype : sc.serviceType = .oneshot ∨ sc.serviceType = .forking) (hs : Starting sc name jid u m)
    (hi : u.cmdIndex = 0) (ha : attempted w sc .start = c.attempt .start 0)
    (h : m.runMainStart w name 0 = some out) (hg : Goes c sc name out exited m'') :
    Comes name jid (Turn.madeMain sc.serviceType (c.turns sc .start) (c.turns sc .startPost)) m m''
      exited := by
  unfold Turn.madeMain
  obtain ⟨hnil, hturns⟩ | ⟨e, es, hcons, hturns⟩ := execSlice_turns (.start)
  · rw [hturns, if_pos rfl]
    have hdone : m.oneshotDone w name = some out := by
      rw [← h, runMainStart, spawnCommand, hs.unit]
      simp [hs.config, hnil]
    exact oneshotDone_comes hs hdone hg
  · rw [hturns, if_neg (List.cons_ne_nil _ _)]
    exact start_comes hm htype hcons hs hi ha h hg

/-- Every course of a start comes to what the code makes of the lists. -/
theorem start_made (hm : sc.serviceType.tracksMain = false)
    (htype : sc.serviceType = .oneshot ∨ sc.serviceType = .forking) (hs : Starting sc name jid u m)
    (hi : u.cmdIndex = 0) (ha : Answers c sc w none)
    (h : (if sc.execStartPre.isEmpty then m.spawnControl w name .start 0
      else m.spawnControl w name .startPre 0) = some out) (hg : Goes c sc name out exited m'') :
    Comes name jid (Turn.made sc.serviceType (c.turns sc .startPre) (c.turns sc .start)
      (c.turns sc .startPost)) m m'' exited := by
  unfold Turn.made
  obtain ⟨hnil, hturns⟩ | ⟨e, es, hcons, hturns⟩ := execSlice_turns (.startPre)
  · have hnil' : sc.execStartPre = [] := hnil
    rw [hnil', if_pos List.isEmpty_nil] at h
    rw [hturns]
    exact main_comes hm htype hs hi (ha .start) h hg
  · have hcons' : sc.execStartPre = e :: es := hcons
    rw [hcons', if_neg (by simp)] at h
    have htried : Tried w sc name jid .startPre 0 e.ignoreFailure u m _ out :=
      spawnCommand_tried hs hm (by decide) (fun hc ↦ absurd hc (by decide)) (by rw [hcons]; rfl) h
    have hat : (c.turn sc .startPre 0 e).attempt = attempted w sc .startPre := (ha .startPre).symm
    rw [hturns]
    simp only [hat]
    cases htried with
    | refused hat hs' hsp =>
      rw [hat]
      exact (failed_comes hs' hg).of_spawns hsp
    | failed hat hf hs' hsp =>
      have hmark : (c.turn sc .startPre 0 e).ignoreFailure = false := hf
      rw [hat]
      simp only [hmark]
      exact (failed_comes hs' hg).of_spawns hsp
    | ignored hat hf hs' _ hi' hsp hd =>
      have hmark : (c.turn sc .startPre 0 e).ignoreFailure = true := hf
      rw [hat]
      simp only [hmark, if_true]
      exact (main_comes hm htype hs' (hi'.trans hi) (ha .start) hd hg).of_spawns hsp
    | spawned hspawned hi' haw =>
      rw [hspawned]
      obtain ⟨w', m₁, u₁, out', exited', rfl, hans, hs', -, hi₁, hsp, hexit, hg'⟩ :=
        awaiting_exits haw (by decide) hg
      have hidx : u₁.cmdIndex = 0 := hi₁.trans (hi'.trans hi)
      obtain ⟨hok, hgo⟩ | ⟨hok, msg, rfl⟩ := controlExited_pre haw.config haw.command hexit
      · have hok' : (c.turn sc .startPre 0 e).exitOk = true := hok
        simp only [hok', if_true]
        exact (main_comes hm htype hs' hidx (hans .start) hgo hg').cons hsp
      · have hok' : (c.turn sc .startPre 0 e).exitOk = false := hok
        simp only [hok']
        exact ((failed_comes (hs'.setResult .exitCode) hg').of_spawns rfl).cons hsp

theorem turnsFrom_command {cmd : ControlCommand} {i : Nat} {es : List ExecCommand} {t : Turn}
    (h : t ∈ c.turnsFrom sc cmd i es) : t.command = cmd := by
  induction es generalizing i with
  | nil => cases h
  | cons e es ih =>
    obtain rfl | h := List.mem_cons.mp h
    · rfl
    · exact ih h

/-- A start that comes to this is as the sequence says exactly if the outcome is. -/
theorem Comes.sequenced (h : Comes name jid r m m' exited) :
    Sequenced c sc name jid m m' exited ↔ Turn.Meets r (c.sequence sc) := by
  constructor
  · intro hq
    refine ⟨h.inOrder.symm.trans hq.inOrder, ?_⟩
    change r.2 = some (c.expected sc).2
    cases he : (c.expected sc).2 with
    | true => rw [← h.ended, hq.ok.mpr he]
    | false =>
      have hfailed := hq.failed he
      cases hr : r.2 with
      | none =>
        rw [h.undecided hr] at hfailed
        cases hfailed
      | some b =>
        cases b with
        | false => rfl
        | true =>
          have hok := hq.ok.mp (h.ended.trans hr)
          rw [he] at hok
          cases hok
  · intro hm
    have hv : m'.verdict jid = some (c.expected sc).2 := h.ended.trans hm.2
    refine ⟨h.inOrder.trans hm.1, h.spawned, ?_, fun he ↦ h.failed ?_⟩
    · rw [hv]
      simp
    · rw [hm.2]
      exact congrArg some he

theorem tracksMain_of_type (h : sc.serviceType = .oneshot ∨ sc.serviceType = .forking) :
    sc.serviceType.tracksMain = false := by
  obtain ho | hf := h
  · rw [ho]
    rfl
  · rw [hf]
    rfl

theorem beginService_starting {job : Job} (hu : m.units.get name = some u) (hk : u.kind = .service)
    (hc : u.serviceCfg = some sc) (hx : m.unitJob.get name = some jid)
    (hj : m.jobs.get jid = some job) (hjk : job.kind = .start) :
    Starting sc name jid
      ({ u with
        mainPid := none, groupPid := none, controlPid := none, controlCommand := none
        cmdIndex := 0, result := .success }.setActive w.now .activating .startPre .success)
      (m.beginService w name) where
  unit := get_modifyUnit_self hu
  kind := hk
  config := hc
  active := rfl
  hasJob := hx
  isStart := ⟨job, hj, hjk⟩

theorem doStart_service (hu : m.units.get name = some u) (hk : u.kind = .service)
    (hc : u.serviceCfg = some sc) : m.doStart w name =
      if sc.execStartPre.isEmpty then (m.beginService w name).spawnControl w name .start 0
      else (m.beginService w name).spawnControl w name .startPre 0 := by
  unfold doStart
  simp only [unitType, hu, Option.map_some, Option.getD_some, hk, startService, hc, Option.any_some]
  cases sc.execStartPre <;> rfl

/-- Every start of a service of these types, whatever its commands do, is the one that its lists say
exactly if what the code makes of the lists is. -/
theorem start_meets {job : Job} (hu : m.units.get name = some u) (hk : u.kind = .service)
    (hc : u.serviceCfg = some sc) (htype : sc.serviceType = .oneshot ∨ sc.serviceType = .forking)
    (hx : m.unitJob.get name = some jid) (hj : m.jobs.get jid = some job) (hjk : job.kind = .start)
    (ha : Answers c sc w none) (h : m.doStart w name = some out)
    (hg : Goes c sc name out exited m') :
    Sequenced c sc name jid m m' exited ↔
      Turn.Meets (Turn.made sc.serviceType (c.turns sc .startPre) (c.turns sc .start)
        (c.turns sc .startPost)) (c.sequence sc) := by
  have hm : sc.serviceType.tracksMain = false := tracksMain_of_type htype
  have hs : Starting sc name jid _ (m.beginService w name) :=
    beginService_starting hu hk hc hx hj hjk
  rw [doStart_service hu hk hc] at h
  have hcomes : Comes name jid _ m m' exited :=
    (start_made hm htype hs rfl ha h hg).of_spawns rfl
  exact hcomes.sequenced

/-- It is the one that its lists say exactly if the lists are straight. -/
theorem start_sequenced_iff {job : Job} (hu : m.units.get name = some u) (hk : u.kind = .service)
    (hc : u.serviceCfg = some sc) (htype : sc.serviceType = .oneshot ∨ sc.serviceType = .forking)
    (hx : m.unitJob.get name = some jid) (hj : m.jobs.get jid = some job) (hjk : job.kind = .start)
    (ha : Answers c sc w none) (h : m.doStart w name = some out)
    (hg : Goes c sc name out exited m') :
    Sequenced c sc name jid m m' exited ↔
      Turn.Straight sc.serviceType (c.turns sc .startPre) (c.turns sc .start)
        (c.turns sc .startPost) := by
  rw [start_meets hu hk hc htype hx hj hjk ha h hg, Course.sequence, List.append_assoc]
  apply Turn.made_meets htype (fun t ht ↦ turnsFrom_command ht)
  intro t ht hpre
  obtain ht | ht := List.mem_append.mp ht
  · rw [turnsFrom_command ht] at hpre
    cases hpre
  · rw [turnsFrom_command ht] at hpre
    cases hpre

/-- The procedure returns, and the start goes on to a decision. -/
def Decides (c : Course) (sc : ServiceConfig) (name : Name) (out : Option Out) : Prop :=
  ∃ o, out = some o ∧ ∃ exited m', Goes c sc name o exited m'

theorem Decides.fails (hs : Starting sc name jid u m) (msg : String) :
    Decides c sc name (some (m, [.failUnit name msg])) := by
  obtain ⟨job, hj, hk⟩ := hs.isStart
  have hx : (m.setActive {} name .failed .failed u.result).unitJob.get name = some jid := hs.hasJob
  have hj' : (m.setActive {} name .failed .failed u.result).jobs.get jid = some job := hj
  have hfail : ∃ out, m.failUnit {} name msg = some out := by
    unfold failUnit
    simp [hs.unit, hx, hj', hk]
  obtain ⟨out, hout⟩ := hfail
  exact ⟨_, rfl, [], out.1, .fails hout⟩

theorem Decides.completes {job : Job} (hx : m.unitJob.get name = some jid)
    (hj : m.jobs.get jid = some job) (hk : job.kind = .start) :
    Decides c sc name (m.completeStartJob w name) := by
  have hout : m.completeStartJob w name =
      some ((m.finishJob w jid).1, (m.finishJob w jid).2 ++ [.timerDepCheck]) := by
    simp [completeStartJob, completeJob, hx, hj, hk, Out.andThen]
  refine ⟨_, hout, [], (m.finishJob w jid).1, .decided ?_ fun msg hmem ↦ ?_⟩
  · exact List.append_ne_nil_of_right_ne_nil _ (List.cons_ne_nil _ _)
  · obtain hmem | hmem := List.mem_append.mp hmem
    · exact (finishJob_plain w m name jid).2 msg hmem
    · simp at hmem

theorem Decides.oneshotDone (hs : Starting sc name jid u m) :
    Decides c sc name (m.oneshotDone w name) := by
  obtain ⟨job, hj, hk⟩ := hs.isStart
  unfold Manager.oneshotDone
  rw [hs.unit]
  exact .completes (m := m.setActive w name _ _ .success) hs.hasJob hj hk

theorem Decides.spawned {pid : Pid} (hs : Starting sc name jid u m)
    (hm : sc.serviceType.tracksMain = false) (hidx : cmd = .start → u.cmdIndex = idx)
    (next : ∀ u' m', Awaiting sc name jid (cmd, idx) (m.spawnsOf name) u' m' →
      u'.cmdIndex = u.cmdIndex → Decides c sc name (some (m', []))) :
    Decides c sc name (m.spawned w name sc cmd idx pid) := by
  have hout : ∃ out, m.spawned w name sc cmd idx pid = some out := by
    unfold Manager.spawned
    simp [hm]
  obtain ⟨out, hout⟩ := hout
  obtain ⟨u', m', rfl, hi, haw⟩ := spawned_awaiting hs hm hidx hout
  rw [hout]
  exact next u' m' haw hi

theorem Decides.spawnCommand (hs : Starting sc name jid u m)
    (hm : sc.serviceType.tracksMain = false) (hidx : cmd = .start → u.cmdIndex = idx)
    (he : (execSlice sc cmd)[idx]? = some exec)
    (hdone : ∀ u' m', Starting sc name jid u' m' → u'.controlPid = u.controlPid →
      u'.cmdIndex = u.cmdIndex → Decides c sc name (done m'))
    (next : ∀ u' m', Awaiting sc name jid (cmd, idx) (m.spawnsOf name) u' m' →
      u'.cmdIndex = u.cmdIndex → Decides c sc name (some (m', []))) :
    Decides c sc name (m.spawnCommand w name cmd idx done) := by
  unfold Manager.spawnCommand
  rw [hs.unit]
  simp only [Option.bind_eq_bind, Option.bind_some, hs.config, he]
  split
  · next result msg hr => exact .fails (hs.setResult result) msg
  · have hc : Starting sc name jid { u with cgroup := u.cgroup.or w.cgroup }
        (m.ensureCgroup w name) :=
      hs.of_unit (get_modifyUnit_self hs.unit) rfl rfl rfl rfl rfl
    split
    · exact .spawned hc hm hidx next
    · split
      · exact hdone _ _ hc rfl rfl
      · exact .fails (hc.setResult .exec) _

theorem Decides.awaits (haw : Awaiting sc name jid last before u m) (hstop : last.1 ≠ .stop)
    (ha : Answers c sc w (some last))
    (next : ∀ u' m', Starting sc name jid u' m' → u'.controlPid = none → u'.cmdIndex = u.cmdIndex →
      Decides c sc name (m'.controlExited w name u (c.exit last.1 last.2))) :
    Decides c sc name (some (m, [])) := by
  obtain ⟨pid, hpid, howner⟩ := haw.process
  have hcmd : u.controlCommand ≠ some .stop := by
    rw [haw.command]
    exact fun h ↦ hstop (Option.some.inj h)
  have hforgot : ((m.forgetPid pid).forgetControl name).units.get name =
      some { u with controlPid := none, groupPid := none, controlCommand := none } :=
    get_modifyUnit_self haw.unit
  obtain ⟨out, hout, exited, m', hg⟩ := next _ ((m.forgetPid pid).forgetControl name)
    ⟨hforgot, haw.kind, haw.config, haw.active, haw.hasJob, haw.isStart⟩ rfl rfl
  have hexit : m.processExit w pid (c.exit last.1 last.2) = some out := by
    rw [processExit_control howner haw.unit haw.kind hpid hcmd haw.active, hout]
  have haside : Aside name m m :=
    ⟨rfl, fun _ h ↦ h, rfl, fun _ job _ hj ↦ ⟨job, hj, rfl⟩, rfl⟩
  exact ⟨_, rfl, last :: exited, m', .exits haw.unit hpid haw.spawns haside ha hexit hg⟩

/-- For every command there is a machine that goes as the course says once it has run. -/
def Course.Possible (c : Course) (sc : ServiceConfig) : Prop :=
  ∀ last, ∃ w, Answers c sc w last

theorem Decides.post (hw : Course.Possible c sc) (hm : sc.serviceType.tracksMain = false)
    (hs : Starting sc name jid u m) (hp : u.controlPid = none) :
    Decides c sc name (m.runStartPostOrFinish w name) := by
  unfold Manager.runStartPostOrFinish
  rw [hs.unit]
  simp only [Option.bind_eq_bind, Option.bind_some, hs.config, Option.any_some]
  cases hl : sc.execStartPost with
  | nil => exact .oneshotDone hs
  | cons e es =>
    have he : (execSlice sc .startPost)[0]? = some e := by simp [execSlice, hl]
    rw [if_pos (by rfl)]
    refine Decides.spawnCommand hs hm (fun hc ↦ absurd hc (by decide)) he ?_ ?_
    · intro u' m' hs' hp' _
      exact ⟨_, rfl, [], m', .idle hs'.unit (hp'.trans hp)⟩
    · intro u' m' haw _
      obtain ⟨w', ha⟩ := hw (some (.startPost, 0))
      refine .awaits haw (by decide) ha fun u₁ m₁ hs₁ _ _ ↦ ?_
      rw [controlExited, haw.command]
      exact .oneshotDone hs₁

theorem Decides.forkingDone (hs : Starting sc name jid u m) :
    Decides c sc name (m.handleForkingStartDone w name) := by
  obtain ⟨job, hj, hk⟩ := hs.isStart
  unfold Manager.handleForkingStartDone
  rw [hs.unit]
  simp only [Option.bind_eq_bind, Option.bind_some]
  cases readForkedPidfile w u with
  | none => exact .completes (m := m.setActive w name _ _ .success) hs.hasJob hj hk
  | some pid =>
    exact .completes (m := (m.adoptPid name pid).setActive w name _ _ .success) hs.hasJob hj hk

theorem Decides.start_step {es : List ExecCommand} (hw : Course.Possible c sc)
    (hm : sc.serviceType.tracksMain = false)
    (htype : sc.serviceType = .oneshot ∨ sc.serviceType = .forking)
    (he : sc.execStart[idx]? = some exec) (hlen : sc.execStart.length = idx + 1 + es.length)
    (hs : Starting sc name jid u m) (hi : u.cmdIndex = idx)
    (next : ∀ u' m' w', es ≠ [] → Starting sc name jid u' m' → u'.cmdIndex = idx + 1 →
      Decides c sc name (m'.runMainStart w' name (idx + 1))) :
    Decides c sc name (m.runMainStart w name idx) := by
  refine Decides.spawnCommand hs hm (fun _ ↦ hi) he (fun _ _ hs' _ _ ↦ .oneshotDone hs') ?_
  intro u' m' haw _
  obtain ⟨w', ha⟩ := hw (some (.start, idx))
  refine .awaits haw (by simp) ha fun u₁ m₁ hs₁ hp₁ _ ↦ ?_
  have hidx : u'.cmdIndex = idx := haw.index rfl
  unfold controlExited
  simp only [haw.command, haw.config, hidx, he, Option.bind_some, Option.any_some, Option.map_some,
    Option.getD_some]
  obtain ho | hf := htype
  · simp only [ho]
    split
    · split
      · next hlt =>
        have hne : es ≠ [] := by
          rintro rfl
          simp only [List.length_nil, decide_eq_true_eq] at hlen hlt
          omega
        have hs₂ : Starting sc name jid { u₁ with cmdIndex := idx + 1 }
            (m₁.modifyUnit name fun u ↦ { u with cmdIndex := idx + 1 }) :=
          hs₁.of_unit (get_modifyUnit_self hs₁.unit) rfl rfl rfl rfl rfl
        exact next _ _ w' hne hs₂ rfl
      · have hs₂ : Starting sc name jid { u₁ with cmdIndex := 0 }
            (m₁.modifyUnit name fun u ↦ { u with cmdIndex := 0 }) :=
          hs₁.of_unit (get_modifyUnit_self hs₁.unit) rfl rfl rfl rfl rfl
        exact .post hw hm hs₂ hp₁
    · exact .fails (hs₁.setResult .exitCode) _
  · simp only [hf]
    exact .forkingDone hs₁

theorem Decides.start {es : List ExecCommand} (hw : Course.Possible c sc)
    (hm : sc.serviceType.tracksMain = false)
    (htype : sc.serviceType = .oneshot ∨ sc.serviceType = .forking)
    (hlist : sc.execStart.drop idx = exec :: es) (hs : Starting sc name jid u m)
    (hi : u.cmdIndex = idx) : Decides c sc name (m.runMainStart w name idx) := by
  induction es generalizing idx exec m u w with
  | nil =>
    obtain ⟨he, hlen, -⟩ := drop_cons hlist
    exact .start_step hw hm htype he hlen hs hi fun _ _ _ hne ↦ absurd rfl hne
  | cons e es ih =>
    obtain ⟨he, hlen, hrest⟩ := drop_cons hlist
    exact .start_step hw hm htype he hlen hs hi fun _ _ _ _ hs' hi' ↦ ih hrest hs' hi'

theorem Decides.main (hw : Course.Possible c sc) (hm : sc.serviceType.tracksMain = false)
    (htype : sc.serviceType = .oneshot ∨ sc.serviceType = .forking)
    (hs : Starting sc name jid u m) (hi : u.cmdIndex = 0) :
    Decides c sc name (m.runMainStart w name 0) := by
  cases hl : sc.execStart with
  | nil =>
    have hdone : m.runMainStart w name 0 = m.oneshotDone w name := by
      rw [runMainStart, Manager.spawnCommand, hs.unit]
      simp [hs.config, execSlice, hl]
    rw [hdone]
    exact .oneshotDone hs
  | cons e es => exact .start hw hm htype hl hs hi

/-- The start of a service is decided, whatever its commands do. -/
theorem start_decided {job : Job} (hu : m.units.get name = some u) (hk : u.kind = .service)
    (hc : u.serviceCfg = some sc) (htype : sc.serviceType = .oneshot ∨ sc.serviceType = .forking)
    (hx : m.unitJob.get name = some jid) (hj : m.jobs.get jid = some job) (hjk : job.kind = .start)
    (hw : Course.Possible c sc) : Decides c sc name (m.doStart w name) := by
  have hm : sc.serviceType.tracksMain = false := tracksMain_of_type htype
  have hs : Starting sc name jid _ (m.beginService w name) :=
    beginService_starting hu hk hc hx hj hjk
  rw [doStart_service hu hk hc]
  cases hl : sc.execStartPre with
  | nil => exact Decides.main hw hm htype hs rfl
  | cons e es =>
    have he : (execSlice sc .startPre)[0]? = some e := by simp [execSlice, hl]
    rw [if_neg (by simp)]
    refine Decides.spawnCommand hs hm (fun hc ↦ absurd hc (by decide)) he ?_ ?_
    · exact fun _ _ hs' _ hi ↦ .main hw hm htype hs' hi
    · intro u' m' haw hi
      obtain ⟨w', ha⟩ := hw (some (.startPre, 0))
      refine .awaits haw (by decide) ha fun u₁ m₁ hs₁ _ hi₁ ↦ ?_
      unfold controlExited
      simp only [haw.command]
      split
      · exact .main hw hm htype hs₁ (hi₁.trans hi)
      · exact .fails (hs₁.setResult .exitCode) _

end Steps

/-- A service with these checks before its command. -/
def checkedBy (checks : List ExecCommand) : ServiceConfig where
  serviceType := .oneshot
  execStartPre := checks
  execStart := [{ argv := ["/bin/run"] }]

/-- The service `a.service`, whose start job has been taken up. -/
def beginning (sc : ServiceConfig) : Manager where
  units := Table.empty.insert "a.service"
    { name := "a.service", kind := .service, file := some { service := some sc } }
  jobs := Table.empty.insert 1 { unit := "a.service", kind := .start, mode := .replace }
  unitJob := Table.empty.insert "a.service" 1
  nextJob := 1

/-- Every command runs and exits successfully. -/
def Course.succeeding : Course := ⟨fun _ _ ↦ .spawned, fun _ _ ↦ .exited 0⟩

def spawning : World where
  spawn _ := .ok 7

theorem spawning_answers (checks : List ExecCommand) (last : Option (ControlCommand × Nat)) :
    Answers Course.succeeding (checkedBy checks) spawning last := by
  intro cmd
  cases cmd <;> rfl

def twoChecks : ServiceConfig :=
  checkedBy [{ argv := ["/bin/check-disk"] }, { argv := ["/bin/check-net"] }]

/-- The second check is never run. -/
theorem second_check_skipped : ∃ out exited m',
    (beginning twoChecks).doStart spawning "a.service" = some out ∧
      Goes Course.succeeding twoChecks "a.service" out exited m' ∧
      ¬ Sequenced Course.succeeding twoChecks "a.service" 1 (beginning twoChecks) m' exited := by
  have hw : Course.Possible Course.succeeding twoChecks :=
    fun last ↦ ⟨spawning, spawning_answers _ last⟩
  obtain ⟨out, hout, exited, m', hg⟩ : Decides Course.succeeding twoChecks "a.service"
      ((beginning twoChecks).doStart spawning "a.service") :=
    start_decided rfl rfl rfl (.inl rfl) rfl rfl rfl hw
  refine ⟨out, exited, m', hout, hg, fun hq ↦ ?_⟩
  have ha : Answers Course.succeeding twoChecks spawning none := spawning_answers _ none
  have hmeets := (start_meets rfl rfl rfl (.inl rfl) rfl rfl rfl ha hout hg).mp hq
  exact absurd hmeets.1 (by decide)

theorem one_check_sequenced : ∃ out exited m',
    (beginning (checkedBy [{ argv := ["/bin/check-disk"] }])).doStart spawning "a.service" =
        some out ∧
      Sequenced Course.succeeding (checkedBy [{ argv := ["/bin/check-disk"] }]) "a.service" 1
        (beginning (checkedBy [{ argv := ["/bin/check-disk"] }])) m' exited := by
  have hw : Course.Possible Course.succeeding (checkedBy [{ argv := ["/bin/check-disk"] }]) :=
    fun last ↦ ⟨spawning, spawning_answers _ last⟩
  obtain ⟨out, hout, exited, m', hg⟩ : Decides Course.succeeding _ "a.service"
      ((beginning (checkedBy [{ argv := ["/bin/check-disk"] }])).doStart spawning "a.service") :=
    start_decided rfl rfl rfl (.inl rfl) rfl rfl rfl hw
  refine ⟨out, exited, m', hout, ?_⟩
  have ha : Answers Course.succeeding (checkedBy [{ argv := ["/bin/check-disk"] }]) spawning none :=
    spawning_answers _ none
  apply (start_sequenced_iff rfl rfl rfl (.inl rfl) rfl rfl rfl ha hout hg).mpr
  exact .inl ⟨Sequence.idle_nil, fun _ ↦ trivial⟩

end Manager

end Rystemd
