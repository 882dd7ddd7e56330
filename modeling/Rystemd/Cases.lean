import Rystemd.Outcomes

namespace Rystemd

variable {w : World} {name : Name} {m m' m'' : Manager} {s : ActiveState} {out : Out}
  {kind : JobKind}

section JobEngine

variable {id : JobId}

/-- The unit of a job begins its start. -/
def Manager.markStarted (m : Manager) (id : JobId) : Manager :=
  m.modifyJob id fun job ↦ { job with started := true }

theorem maybeStartJob_cases (h : m.maybeStartJob w id = some out) :
    ∃ job, m.jobs.get id = some job ∧
      ((job.failed ∧ out = m.finishJobFailed w id) ∨
        (job.failed = false ∧ (job.waiting ≠ [] ∨ job.started) ∧ out = (m, [])) ∨
        (job.failed = false ∧ job.waiting = [] ∧ job.started = false ∧
          (m.units.get job.unit).isSome ∧ ∃ m', Keeps job.unit (m.markStarted id) m' ∧
            ((∃ msg, out = (m'.setFailed id msg).finishJobFailed w id) ∨
              m'.doStart w job.unit = some out))) := by
  obtain ⟨job, hj, h⟩ := Option.bind_eq_some_iff.mp h
  refine ⟨job, hj, ?_⟩
  split at h
  · next hf => cases h; exact .inl ⟨hf, rfl⟩
  · next hf =>
    have hf := eq_false_of_ne_true hf
    split at h
    · next hw =>
      cases h
      refine .inr (.inl ⟨hf, ?_, rfl⟩)
      simpa using hw
    · next hw =>
      obtain ⟨u, hu, h⟩ := Option.bind_eq_some_iff.mp h
      extract_lets m₁ limit m₂ m₃ at h
      have hw : job.waiting = [] ∧ job.started = false := by simpa using hw
      have h₂ : Keeps job.unit (m.markStarted id) m₂ := .checkStartLimit hu
      refine .inr (.inr ⟨hf, hw.1, hw.2, by rw [hu]; rfl, ?_⟩)
      split at h
      · cases h
        exact ⟨m₃, h₂.trans .setResult, .inl ⟨_, rfl⟩⟩
      · exact ⟨m₂, h₂, .inr h⟩

theorem maybeStopJob_cases (h : m.maybeStopJob w id = some out) :
    ∃ job, m.jobs.get id = some job ∧
      ((m.unitOperational job.unit = false ∧ out = m.finishJob w id) ∨
        (m.unitOperational job.unit ∧ job.started ∧ out = (m, [])) ∨
        (m.unitOperational job.unit ∧ job.started = false ∧
          ({ m with unitJob := m.unitJob.insert job.unit id }.markStarted id).doStop w job.unit =
            some out)) := by
  obtain ⟨job, hj, h⟩ := Option.bind_eq_some_iff.mp h
  refine ⟨job, hj, ?_⟩
  split at h
  · next ho =>
    cases h
    exact .inl ⟨by simpa using ho, rfl⟩
  · next ho =>
    have ho : m.unitOperational job.unit := by simpa using ho
    split at h
    · next hs => cases h; exact .inr (.inl ⟨ho, hs, rfl⟩)
    · next hs => exact .inr (.inr ⟨ho, eq_false_of_ne_true hs, h⟩)

/-- The expansion of a start job begins. -/
def Manager.markExpanding (m : Manager) (id : JobId) : Manager :=
  m.modifyJob id fun job ↦ { job with expanding := true }

/-- How the expansion of a start job begins. -/
inductive Expands (w : World) (m : Manager) (id : JobId) (name : Name) : Out → Prop
  | missing (msg : String) : m.units.get name = none →
      Expands w m id name (m.setFailed id msg, [.maybeStartJob id])
  | asserted (msg : String) :
      Expands w m id name (m.setResult name .assert, [.failUnit name msg])
  | skipped : Expands w m id name (m.finishJob w id)
  | requisite (msg : String) :
      Expands w m id name ((m.markExpanding id).setFailed id msg, [.maybeStartJob id])
  | opens (waiting : List WaitEntry) :
      (m.markExpanding id).requisiteWaits (startClosure m.units name).2.2 [] = some (.ok waiting) →
      Expands w m id name (m.markExpanding id,
        (closureConflicts m.units name).map .stopConflict ++
          [.expandOpen id name (startClosure m.units name).1 waiting
            (Manager.openList (startClosure m.units name).1 (startClosure m.units name).2.1)])

theorem expandStartJob_cases (h : m.expandStartJob w id name = some out) :
    Expands w m id name out := by
  unfold Manager.expandStartJob at h
  split at h
  · next hu => cases h; exact .missing _ hu
  · split at h
    · obtain ⟨r, hr, h⟩ := Option.bind_eq_some_iff.mp h
      split at h
      · cases h; exact .requisite _
      · next waiting => cases h; exact .opens waiting hr
    · split at h
      · cases h; exact .asserted _
      · cases h; exact .skipped

/-- How the loop over the dependencies goes on. -/
inductive Opens (w : World) (m : Manager) (id : JobId) (name : Name) (needs : List Name)
    (waiting : List WaitEntry) : List Name → Out → Prop
  | finish (u : Unit) (after before : List WaitEntry) : m.units.get name = some u →
      m.orderingWaits false u.config.after waiting = some after →
      m.orderingWaits true (m.beforeNames w name) after = some before →
      Opens w m id name needs waiting [] (m.commitWaiting id before, [.maybeStartJob id])
  | skip (d : Name) (ds : List Name) :
      m.unitActive d ∨ (m.units.contains d = false ∧ d ∉ needs) →
      Opens w m id name needs waiting (d :: ds) (m, [.expandOpen id name needs waiting ds])
  | missing (d : Name) (ds : List Name) (msg : String) : m.units.contains d = false → d ∈ needs →
      m.jobs.contains id →
      Opens w m id name needs waiting (d :: ds) (m.setFailed id msg, [.maybeStartJob id])
  | pending (d : Name) (ds : List Name) : m.unitActive d = false → m.units.contains d →
      m.jobKindOf d = some (some .start) →
      Opens w m id name needs waiting (d :: ds)
        (m, [.expandOpen id name needs (waiting ++ [⟨d, decide (d ∈ needs)⟩]) ds])
  | new (d : Name) (ds : List Name) (kind : Option JobKind) : m.unitActive d = false →
      m.units.contains d → m.jobKindOf d = some kind → kind ≠ some .start →
      Opens w m id name needs waiting (d :: ds)
        (m, [.enqueueStartJob d,
          .expandOpen id name needs (waiting ++ [⟨d, decide (d ∈ needs)⟩]) ds])

theorem expandOpen_cases {needs : List Name} {waiting : List WaitEntry} {ds : List Name}
    (h : m.expandOpen w id name needs waiting ds = some out) :
    Opens w m id name needs waiting ds out := by
  unfold Manager.expandOpen at h
  split at h
  · obtain ⟨u, hu, h⟩ := Option.bind_eq_some_iff.mp h
    obtain ⟨after, ha, h⟩ := Option.bind_eq_some_iff.mp h
    obtain ⟨before, hb, h⟩ := Option.bind_eq_some_iff.mp h
    cases h
    exact .finish u after before hu ha hb
  · next d ds =>
    extract_lets required at h
    split at h
    · next hd => cases h; exact .skip d ds (.inl hd)
    · next hd =>
      have hd := eq_false_of_ne_true hd
      split at h
      · next hc =>
        have hc : m.units.contains d = false := by simpa using hc
        split at h
        · next hr =>
          split at h
          · next hj => cases h; exact .missing d ds _ hc (of_decide_eq_true hr) hj
          · cases h
        · next hr =>
          cases h
          exact .skip d ds (.inr ⟨hc, fun hr' ↦ hr (decide_eq_true hr')⟩)
      · next hc =>
        have hc : m.units.contains d := by simpa using hc
        split at h
        · cases h
        · next hk => cases h; exact .pending d ds hd hc hk
        · next kind hs hk =>
          cases h
          exact .new d ds kind hd hc hk hs

end JobEngine

section Requests

theorem loadUnit_fresh {u : Unit} (h : Manager.loadUnit w name = .ok (some u)) : u.Fresh := by
  unfold Manager.loadUnit at h
  split at h
  · cases h
  · cases h
  · cases h
    exact ⟨.inl rfl, rfl, rfl, rfl, rfl, rfl⟩

theorem ensureUnitLoaded_adds (h : m.ensureUnitLoaded w name = .ok m') : Adds m m' := by
  unfold Manager.ensureUnitLoaded at h
  split at h
  · cases h; exact .refl
  · next hc =>
    have hn : m.units.get name = none := by simpa [Table.contains] using hc
    split at h
    · cases h
    · cases h
    · next u hu =>
      cases h
      exact ⟨rfl, rfl, rfl, rfl, rfl, rfl, rfl, rfl, .insert (loadUnit_fresh hu) hn⟩

theorem ensureUnitLoaded_isSome (h : m.ensureUnitLoaded w name = .ok m') :
    (m'.units.get name).isSome := by
  unfold Manager.ensureUnitLoaded at h
  split at h
  · next hc => cases h; exact hc
  · split at h
    · cases h
    · cases h
    · cases h; simp

theorem busLoadUnit_adds : Adds m (m.busLoadUnit w name) := by
  unfold Manager.busLoadUnit
  split
  · exact .refl
  · next h => exact ensureUnitLoaded_adds h

theorem registerDevice_adds (t : Table Name Unit) (n : Name) :
    AddsUnits t (Manager.registerDevice w t n) := by
  unfold Manager.registerDevice
  split
  · exact .refl
  · next hc => exact .insert ⟨.inr ⟨rfl, rfl⟩, rfl, rfl, rfl, rfl, rfl⟩ (by simpa [Table.contains] using hc)

theorem udevRegister_adds {device : Device} : Adds m (m.udevRegister w device) := by
  refine ⟨rfl, rfl, rfl, rfl, rfl, rfl, rfl, rfl, ?_⟩
  unfold Manager.udevRegister
  dsimp only
  generalize m.units = t
  induction device.unitNames generalizing t with
  | nil => exact .refl
  | cons n names ih => exact (registerDevice_adds t n).trans (ih _)

theorem reloadUnits_get_eq {n : Name} :
    (m.reloadUnits w).get n = if n ∈ w.discovered then m.reloadUnit w n else none := by
  suffices ∀ (names : List Name) (t : Table Name Unit),
      (names.foldl (fun units n ↦ (m.reloadUnit w n).elim units fun u ↦ units.insert n u) t).get n =
        if n ∈ names then (m.reloadUnit w n).or (t.get n) else t.get n by
    simpa [Manager.reloadUnits] using this w.discovered .empty
  intro names
  induction names with
  | nil => intro t; simp
  | cons a names ih =>
    intro t
    rw [List.foldl_cons, ih]
    by_cases ha : n = a
    · subst ha
      cases m.reloadUnit w n <;> simp
    · cases m.reloadUnit w a <;> simp [ha, Table.get_insert]

theorem reloadUnits_get {n : Name} {u : Unit} (h : (m.reloadUnits w).get n = some u) :
    m.reloadUnit w n = some u := by
  rw [reloadUnits_get_eq] at h
  split at h
  · exact h
  · cases h

theorem udevRegisters_adds (devices : List Device) (m : Manager) :
    Adds m (devices.foldl (Manager.udevRegister w) m) := by
  induction devices generalizing m with
  | nil => exact .refl
  | cons d devices ih => exact udevRegister_adds.trans (ih _)

/-- A reload replaces the units and the timer wheel. -/
theorem loadAll_cases (h : m.loadAll w = some m') :
    ∃ m₁, Adds { m with units := m.reloadUnits w } m₁ ∧ Quiet m₁ m' ∧
      Silent { m₁ with wheel := {} } m' := by
  unfold Manager.loadAll at h
  extract_lets devices at h
  refine ⟨_, udevRegisters_adds (w := w) devices _, Quiet.trans ?_ (Quiet.rearmTimers h),
    .rearmTimers h⟩
  exact .of_eq rfl rfl rfl rfl rfl rfl

theorem Unit.Fresh.restartOk {u : Unit} (h : u.Fresh) : u.RestartOk := by
  intro hs
  rw [h.sub] at hs
  cases hs

theorem reloadUnit_restartOk {n : Name} {u : Unit} (hm : ∀ u ∈ m.units.get n, u.RestartOk)
    (h : m.reloadUnit w n = some u) : u.RestartOk := by
  unfold Manager.reloadUnit at h
  split at h
  · cases h
  · next v hv =>
    cases h
    split
    · next old hold =>
      split
      · exact (loadUnit_fresh hv).restartOk
      · exact hm old hold
    · exact (loadUnit_fresh hv).restartOk
  · cases h
    exact fun hs ↦ by cases hs

/-- A reload keeps the processes of a unit or forgets them. -/
theorem reloadUnit_procs {n : Name} {u : Unit} (h : m.reloadUnit w n = some u) :
    (u.mainPid = none ∧ u.controlPid = none) ∨
      ∃ old, m.units.get n = some old ∧ u.procs = old.procs := by
  unfold Manager.reloadUnit at h
  split at h
  · cases h
  · next v hv =>
    have hf := loadUnit_fresh hv
    cases h
    split
    · next old hold =>
      split
      · exact .inl ⟨hf.mainPid, hf.controlPid⟩
      · exact .inr ⟨old, hold, rfl⟩
    · exact .inl ⟨hf.mainPid, hf.controlPid⟩
  · cases h
    exact .inl ⟨rfl, rfl⟩

theorem udevRemove_get {device : Device} {n : Name} {u : Unit}
    (h : (m.udevRemove device).units.get n = some u) : m.units.get n = some u := by
  unfold Manager.udevRemove at h
  dsimp only at h
  generalize m.units = t at h ⊢
  generalize device.unitNames = names at h
  induction names generalizing t with
  | nil => exact h
  | cons a names ih =>
    have hr := ih _ h
    rw [Table.get_remove] at hr
    split at hr
    · cases hr
    · exact hr

/-- How a start ends, and what it replies. -/
inductive Starts (w : World) (m : Manager) (name : Name) (mode : JobMode) :
    Manager.StartReply → Out → Prop
  | unloadable (e : String) : Starts w m name mode (.error e) (m, [])
  | shutdown {m' : Manager} : m.ensureUnitLoaded w name = .ok m' → m'.shuttingDown →
      Starts w m name mode (.ok none) (m', [])
  | active {m' : Manager} : m.ensureUnitLoaded w name = .ok m' → m'.unitActive name →
      Starts w m name mode (.ok none) (m', [])
  | pending {m' : Manager} {jid : JobId} {job : Job} : m.ensureUnitLoaded w name = .ok m' →
      m'.jobOf name = some (jid, job) → job.kind = .start →
      Starts w m name mode (.ok (some jid)) (m', [])
  | irreversible {m' : Manager} (e : String) : m.ensureUnitLoaded w name = .ok m' →
      Starts w m name mode (.error e) (m', [])
  | cancels {m' : Manager} {jid : JobId} {job : Job} (msg : String) :
      m.ensureUnitLoaded w name = .ok m' → m'.shuttingDown = false → m'.unitActive name = false →
      m'.jobOf name = some (jid, job) → job.kind ≠ .start →
      Starts w m name mode (.ok none) ((m'.cancelJob w jid msg).andThen [.revive name])
  | enqueues {m' : Manager} {out : Out} : m.ensureUnitLoaded w name = .ok m' →
      m'.shuttingDown = false → m'.unitActive name = false → m'.jobOf name = none →
      m'.enqueueStartJobMode w name mode = some out →
      Starts w m name mode (.ok (some (m'.nextJob + 1))) (out.andThen [.processJobs])

theorem startWithMode_cases {mode : JobMode} {reply : Manager.StartReply}
    (h : m.startWithMode w name mode = some (reply, out)) : Starts w m name mode reply out := by
  unfold Manager.startWithMode at h
  split at h
  · cases h; exact .unloadable _
  · next m' hl =>
    split at h
    · next hs => cases h; exact .shutdown hl hs
    · next hs =>
      have hs := eq_false_of_ne_true hs
      split at h
      · next hc =>
        have := ensureUnitLoaded_isSome hl
        simp [Table.contains, this] at hc
      · split at h
        · next ha => cases h; exact .active hl ha
        · next ha =>
          have ha := eq_false_of_ne_true ha
          split at h
          · next jid job hj =>
            split at h
            · next hk => cases h; exact .pending hl hj hk
            · next hk =>
              split at h
              · cases h; exact .irreversible _ hl
              · cases h; exact .cancels _ hl hs ha hj hk
          · next hj =>
            obtain ⟨r, hr, h⟩ := Option.map_eq_some_iff.mp h
            cases h
            exact .enqueues hl hs ha hj hr

theorem jobOf_eq {jid : JobId} {job : Job} (h : m.jobOf name = some (jid, job)) :
    m.unitJob.get name = some jid ∧ m.jobs.get jid = some job := by
  obtain ⟨id, hx, h⟩ := Option.bind_eq_some_iff.mp h
  obtain ⟨j, hj, h⟩ := Option.map_eq_some_iff.mp h
  cases h
  exact ⟨hx, hj⟩

/-- How a restart of a running unit ends; a unit that does not run is started. -/
theorem restart_cases {reply : Manager.Reply} (h : m.restart w name = some (reply, out)) :
    (m.units.get name = none ∧ out = (m, [])) ∨
    (m.unitOperational name ∧ out = (m, []) ∧
      ∃ jid job, m.jobOf name = some (jid, job) ∧ job.kind = .restart) ∨
    (m.unitOperational name ∧ ∃ cs, (cs = [] ∨ ∃ service, cs = [.restartActivated service]) ∧
      out = ((m.dropStartJob name).enqueueStopJobAfterMode w name (some name) .replace).andThen
        (.processJobs :: cs)) ∨
    (m.unitOperational name = false ∧ ∃ reply', Starts w m name .replace reply' out ∧
      reply = reply'.map fun _ ↦ ⟨⟩) := by
  unfold Manager.restart at h
  split at h
  · next hu => cases h; exact .inl ⟨hu, rfl⟩
  · split at h
    · next ho =>
      split at h
      · next hr =>
        cases h
        obtain ⟨⟨jid, job⟩, hj, hk⟩ := (Option.any_eq_true ..).mp hr
        exact .inr (.inl ⟨ho, rfl, jid, job, hj, of_decide_eq_true hk⟩)
      · extract_lets r at h
        cases h
        refine .inr (.inr (.inl ⟨ho, _, ?_, rfl⟩))
        split
        · exact .inr ⟨_, rfl⟩
        · exact .inl rfl
    · next ho =>
      obtain ⟨⟨reply', out'⟩, hr, h⟩ := Option.map_eq_some_iff.mp h
      cases h
      exact .inr (.inr (.inr ⟨eq_false_of_ne_true ho, reply', startWithMode_cases hr, rfl⟩))

end Requests

section Events

theorem reload_ends (h : m.reload w name = some out) (kind : JobKind) : Ends w name kind m out := by
  unfold Manager.reload at h
  split at h
  · cases h; exact .waits .refl
  · split at h
    · exact spawnControl_ends h trivial
    · cases h; exact .waits .refl

theorem revive_puts (h : m.revive w name = some out) :
    ∃ m', Puts name .active m m' ∧ out = (m', []) := by
  obtain ⟨u, hu, h⟩ := Option.bind_eq_some_iff.mp h
  cases h
  have hp : Puts name .active m (m.setActive w name .active .exited .success) :=
    .setActive (by rw [hu]; rfl) nofun
  exact ⟨_, hp, rfl⟩

theorem resetFailed_cases :
    m.resetFailed name = m ∨
      (m.activeOf name = some .failed ∧ Puts name .inactive m (m.resetFailed name)) := by
  unfold Manager.resetFailed
  split
  · next h =>
    obtain ⟨u, hu, ha⟩ := (Option.any_eq_true ..).mp h
    have ha := of_decide_eq_true ha
    refine .inr ⟨by rw [Manager.activeOf, hu, Option.map_some, ha], ?_, ?_⟩
    · exact .modifyUnit (fun _ ↦ ⟨rfl, rfl⟩) (fun _ _ hs ↦ by cases hs) fun _ ↦ .of_procs rfl
    · rw [activeOf_modifyUnit, hu]
      rfl
  · exact .inl rfl

theorem nowRunning_ends (h : m.nowRunning w name = some out) :
    out = (m, []) ∨ (m.activeOf name = some .activating ∧ Ends w name .start m out) := by
  unfold Manager.nowRunning at h
  split at h
  · next ha =>
    obtain ⟨u, hu, ha⟩ := (Option.any_eq_true ..).mp ha
    have ha := of_decide_eq_true ha
    have hp : Puts name .active m (m.setActive w name .active .running .success) :=
      .setActive (by rw [hu]; rfl) nofun
    exact .inr ⟨by rw [Manager.activeOf, hu, Option.map_some, ha],
      .completes hp (.inl rfl) h setActive_sameProcs⟩
  · cases h; exact .inl rfl

theorem handleNotify_ends {ready : Bool} {pid : Option Pid}
    (h : m.handleNotify w ready pid = some out) :
    out = (m, []) ∨ ∃ name, m.activeOf name = some .activating ∧ Ends w name .start m out := by
  unfold Manager.handleNotify at h
  split at h
  · cases h; exact .inl rfl
  · next name _ =>
    split at h
    · exact (nowRunning_ends h).imp_right fun h ↦ ⟨name, h⟩
    · cases h; exact .inl rfl

theorem nameAcquired_ends {busName : String} (h : m.nameAcquired w busName = some out) :
    ∃ name m', Keeps name m m' ∧
      (out = (m', []) ∨ (m'.activeOf name = some .activating ∧ Ends w name .start m' out)) := by
  unfold Manager.nameAcquired at h
  split at h
  · cases h; exact ⟨"", m, .refl, .inl rfl⟩
  · next name _ =>
    exact ⟨name, { m with pendingBusNames := m.pendingBusNames.remove busName },
      .of_signals rfl rfl rfl rfl rfl rfl rfl rfl rfl .refl, nowRunning_ends h⟩

/-- What the deadline of a unit that is not a timer does. -/
inductive ServiceTimer (w : World) (name : Name) (m : Manager) : TimerKind → Out → Prop
  | ignored (kind : TimerKind) : ServiceTimer w name m kind (m, [])
  | restart {u : Unit} {out : Out} : m.units.get name = some u → u.sub = .autoRestart →
      m.doStart w name = some out →
      ServiceTimer w name m .restartDelay (out.andThen [.processJobs])
  | start {m' : Manager} (msg : String) : m.activeOf name = some .activating → Keeps name m m' →
      ServiceTimer w name m .startTimeout (m', [.failUnit name msg])
  | stop {out : Out} : m.activeOf name = some .deactivating → Ends w name .stop m out →
      ServiceTimer w name m .stopTimeout out

theorem fireServiceTimer_cases {kind : TimerKind} (h : m.fireServiceTimer w name kind = some out) :
    ServiceTimer w name m kind out := by
  unfold Manager.fireServiceTimer at h
  split at h
  · cases h; exact .ignored _
  · next u hu =>
    have hk : Keeps name m (m.killTreeKill name) := .killTree
    split at h
    · split at h
      · next hs =>
        obtain ⟨r, hr, rfl⟩ := Option.map_eq_some_iff.mp h
        exact .restart hu hs hr
      · cases h; exact .ignored _
    · split at h
      · next ha =>
        cases h
        have hr : Keeps name m (m.setResult name .timeout) := .setResult
        exact .start _ (by rw [Manager.activeOf, hu, Option.map_some, ha]) (hr.trans .killTree)
      · cases h; exact .ignored _
    · split at h
      · next ha =>
        exact .stop (by rw [Manager.activeOf, hu, Option.map_some, ha]) (hk.ends (finalizeStop_ends h))
      · cases h; exact .ignored _
    · cases h; exact .ignored _
    · cases h; exact .ignored _

theorem fireTimer_cases {kind : TimerKind} (h : m.fireTimer w name kind = some out) :
    ServiceTimer w name m kind out ∨ ∃ m' target, Quiet m m' ∧
      out = (m', [.start target .replace, .rearmTimer name, .processJobs]) := by
  unfold Manager.fireTimer at h
  split at h
  · exact .inl (fireServiceTimer_cases h)
  · next u _ =>
    cases h
    have hq : Quiet m (m.modifyUnit name fun u ↦
        { u with timer := u.timer.map (Manager.markTriggered w kind) }) := .modifyUnit fun _ ↦ rfl
    exact .inr ⟨_, u.activatedUnit, hq, rfl⟩

theorem Quiet.forgetPid {pid : Pid} : Quiet m (m.forgetPid pid) := .of_eq rfl rfl rfl rfl rfl rfl

/-- An exit is ignored, or it is the one of the control process of a unit, or it counts as the
one of the main process. -/
inductive ProcessExit (w : World) (m : Manager) (pid : Pid) (exit : ChildExit) : Out → Prop
  | ignored : (∀ name, m.pidUnit.get pid = some name →
      ∃ u, m.units.get name = some u ∧ u.kind = .target) →
      ProcessExit w m pid exit (m.forgetPid pid, [])
  | main {name : Name} : m.pidUnit.get pid = some name →
      (∀ u, m.units.get name = some u → u.kind ≠ .target ∧ u.controlPid ≠ some pid) →
      ProcessExit w m pid exit (m.forgetPid pid, [.mainExit name exit])
  | control {name : Name} {u : Unit} {out : Out} : m.pidUnit.get pid = some name →
      m.units.get name = some u → u.kind ≠ .target → u.controlPid = some pid →
      (m.forgetPid pid).handleControlExit w name exit = some out → ProcessExit w m pid exit out

theorem processExit_cases {pid : Pid} {exit : ChildExit} (h : m.processExit w pid exit = some out) :
    ProcessExit w m pid exit out := by
  unfold Manager.processExit at h
  extract_lets owner m' at h
  cases howner : owner with
  | none =>
    rw [howner] at h
    cases h
    refine .ignored fun name hn ↦ ?_
    rw [show m.pidUnit.get pid = none from howner] at hn
    cases hn
  | some name =>
    rw [howner] at h
    dsimp only at h
    split at h
    · next ht =>
      cases h
      obtain ⟨u, hu, hk⟩ := (Option.any_eq_true ..).mp ht
      refine .ignored fun name' hn ↦ ⟨u, ?_, of_decide_eq_true hk⟩
      rw [show m.pidUnit.get pid = some name from howner] at hn
      cases hn
      exact hu
    · next ht =>
      have ht : ∀ u, m.units.get name = some u → u.kind ≠ .target := by
        intro u hu hk
        have hu' : m'.units.get name = some u := hu
        simp [hu', hk] at ht
      split at h
      · next hc =>
        obtain ⟨u, hu, hc⟩ := (Option.any_eq_true ..).mp hc
        exact .control howner hu (ht u hu) (of_decide_eq_true hc) h
      · next hc =>
        cases h
        refine .main howner fun u hu ↦ ⟨ht u hu, fun hp ↦ hc ?_⟩
        have hu' : m'.units.get name = some u := hu
        simp [hu', hp]

theorem stopDependent_cases (name : Name) :
    m.stopDependent w name = (m, []) ∨
      (m.unitOperational name ∧ m.unitJob.get name = none ∧
        m.stopDependent w name = m.enqueueStopJob w name) := by
  unfold Manager.stopDependent
  split
  · next h =>
    obtain ⟨ho, hj⟩ := (Bool.and_eq_true ..).mp h
    exact .inr ⟨ho, by simpa [Table.contains] using hj, rfl⟩
  · exact .inl rfl

theorem stopConflict_cases (h : m.stopConflict w name = some out) :
    out = (m, []) ∨ (m.unitOperational name ∧ out = m.enqueueStopJob w name ∧
      ∃ kind, m.jobKindOf name = some kind ∧ kind ≠ some .stop) := by
  unfold Manager.stopConflict at h
  split at h
  · cases h; exact .inl rfl
  · next ho =>
    split at h
    · cases h
    · next kind hk =>
      split at h
      · cases h; exact .inl rfl
      · next hs =>
        cases h
        exact .inr ⟨by simpa using ho, rfl, kind, hk, hs⟩

theorem pollPaths_calls {c : Call} (h : c ∈ (m.pollPaths w).2) :
    c = .processJobs ∨ ∃ name, c = .start name .replace := by
  unfold Manager.pollPaths at h
  extract_lets step r at h
  suffices ∀ (names : List Name) (acc : Table Name Unit × List Call),
      (∀ c ∈ acc.2, c = .processJobs ∨ ∃ name, c = .start name .replace) →
      ∀ c ∈ (names.foldl step acc).2, c = .processJobs ∨ ∃ name, c = .start name .replace from
    this _ _ (fun _ hc ↦ by cases hc) c h
  intro names
  induction names with
  | nil => exact fun acc h ↦ h
  | cons a names ih =>
    intro acc hacc
    refine ih _ fun c hc ↦ ?_
    dsimp only [step] at hc
    split at hc
    · exact hacc c hc
    · split at hc
      · exact hacc c hc
      · split at hc
        · split at hc
          · rcases List.mem_append.mp hc with hc | hc
            · exact hacc c hc
            · rcases List.mem_cons.mp hc with rfl | hc
              · exact .inr ⟨_, rfl⟩
              · exact .inl (List.mem_singleton.mp hc)
          · exact hacc c hc
        · exact hacc c hc

end Events

section Boot

/-- Nothing was done yet. -/
structure Pristine (m : Manager) : Prop where
  units : ∀ n u, m.units.get n = some u → u.Fresh
  pidUnit : m.pidUnit = .empty
  children : m.kernel.children = .empty
  wheel : m.wheel.Wf
  service : ∀ n k, k.service → ¬ m.wheel.Armed n k
  shuttingDown : m.shuttingDown = false
  jobs : m.jobs = .empty
  nextJob : m.nextJob = 0
  completedJobs : m.completedJobs = .empty

theorem Quiet.fresh (h : Quiet m m') (hm : ∀ n u, m.units.get n = some u → u.Fresh) :
    ∀ n u, m'.units.get n = some u → u.Fresh := by
  intro n u' hu'
  have hn := h.units n
  rw [hu'] at hn
  obtain ⟨u, hu, he⟩ := Option.map_eq_some_iff.mp hn.symm
  have hf := hm n u hu
  have heq {α : Type} (f : Unit → α) (h : ∀ x, f x.core = f x) : f u' = f u := by
    rw [← h u', ← he, h u]
  refine ⟨?_, ?_, ?_, ?_, ?_, ?_⟩
  · rw [heq Unit.active fun _ ↦ rfl, heq Unit.kind fun _ ↦ rfl]
    exact hf.active
  · exact (heq Unit.sub fun _ ↦ rfl).trans hf.sub
  · exact (heq Unit.mainPid fun _ ↦ rfl).trans hf.mainPid
  · exact (heq Unit.groupPid fun _ ↦ rfl).trans hf.groupPid
  · exact (heq Unit.controlPid fun _ ↦ rfl).trans hf.controlPid
  · exact (heq Unit.controlCommand fun _ ↦ rfl).trans hf.controlCommand

theorem Booted.pristine (h : Booted m) : Pristine m := by
  obtain ⟨w, sa, bi, h⟩ := h
  obtain ⟨m₁, ha, hq, hs⟩ := loadAll_cases h
  have hfresh : ∀ n u, m₁.units.get n = some u → u.Fresh := by
    intro n u hu
    cases hn : (Manager.reloadUnits w { socketActivation := sa, bootInstant := bi }).get n with
    | none => exact ha.units.added n u hn hu
    | some v =>
      have huv := ha.units.kept n v hn
      rw [hu] at huv
      cases huv
      have hv := reloadUnits_get hn
      unfold Manager.reloadUnit at hv
      split at hv
      · cases hv
      · next v hv' =>
        cases hv
        exact loadUnit_fresh hv'
      · cases hv
        exact ⟨.inl rfl, rfl, rfl, rfl, rfl, rfl⟩
  refine ⟨hq.fresh hfresh, hs.pidUnit.trans ha.pidUnit, ?_, hs.wheel.wf TimerWheel.wf_empty,
    fun n k hk hn ↦ absurd (hs.wheel.service hk hn) TimerWheel.armed_empty,
    hq.shuttingDown.trans ha.shuttingDown, hq.jobs.trans ha.jobs, hq.nextJob.trans ha.nextJob,
    hq.completedJobs.trans ha.completedJobs⟩
  exact hs.children.trans (congrArg Kernel.children ha.kernel)

end Boot

end Rystemd
