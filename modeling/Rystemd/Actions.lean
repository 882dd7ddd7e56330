import Rystemd.Cases

namespace Rystemd

/-- The unit less what is not about its processes: timers, paths, result and start limit. -/
def Unit.bare (u : Unit) : Unit :=
  { u with timer := none, pathState := none, result := .success, startWindow := [] }

/-- Between `m` and `m'` nothing changed but the jobs. -/
structure JobsOnly (m m' : Manager) : Prop where
  units : m'.units = m.units
  wheel : m'.wheel = m.wheel
  pidUnit : m'.pidUnit = m.pidUnit
  kernel : m'.kernel = m.kernel
  shuttingDown : m'.shuttingDown = m.shuttingDown

/-- The calls that arm timer units. -/
def Call.rearms : Call → Bool
  | .loadAll | .timerDepCheck | .rearmTimer _ => true
  | _ => false

/-- The call `c` brings no unit into another state and no process with it. At most some
fresh units were added, timers were lost only of timer units, and a deadline of a service that is
new is one of a loaded unit. -/
structure Rests (c : Call) (m m' : Manager) : Prop where
  kept : ∀ n u, m.units.get n = some u → ∃ u', m'.units.get n = some u' ∧ u'.bare = u.bare
  added : ∀ n u', m.units.get n = none → m'.units.get n = some u' → u'.Fresh
  pidUnit : m'.pidUnit = m.pidUnit
  children : m'.kernel.children = m.kernel.children
  signals : Signals m m'
  wheel : m.wheel.NoDelay m'.wheel
  timers : ∀ {n k}, k.service → m'.wheel.Armed n k → m.wheel.Armed n k ∨ (m'.units.get n).isSome
  armed : m.wheel.Wf → ∀ {name u kind}, m.units.get name = some u → u.kind ≠ .timer →
    c ≠ .rearmTimer name → m.wheel.Armed name kind → m'.wheel.Armed name kind
  elapse : c.rearms = false → m.wheel.NoElapse m'.wheel
  shuttingDown : m'.shuttingDown = m.shuttingDown

variable {w : World} {c : Call} {m m' m'' : Manager} {name : Name} {out : Out} {id : JobId}
  {job : Job} {kind : JobKind}

/-- Units that are alike in this way agree in every field that is left. -/
theorem Unit.of_bare {u v : Unit} (h : u.bare = v.bare) {α : Type} {f : Unit → α}
    (hf : ∀ x, f x.bare = f x) : f u = f v := by
  rw [← hf u, h, hf v]

namespace JobsOnly

theorem refl : JobsOnly m m := ⟨rfl, rfl, rfl, rfl, rfl⟩

theorem trans (h : JobsOnly m m') (h' : JobsOnly m' m'') : JobsOnly m m'' :=
  ⟨h'.units.trans h.units, h'.wheel.trans h.wheel, h'.pidUnit.trans h.pidUnit,
    h'.kernel.trans h.kernel, h'.shuttingDown.trans h.shuttingDown⟩

theorem finishJob : JobsOnly m (m.finishJob w id).1 := by
  unfold Manager.finishJob
  split
  · exact refl
  · exact ⟨rfl, rfl, rfl, rfl, rfl⟩

theorem finishJobFailed : JobsOnly m (m.finishJobFailed w id).1 := by
  unfold Manager.finishJobFailed
  split
  · exact refl
  · exact ⟨rfl, rfl, rfl, rfl, rfl⟩

theorem cancelJob {msg : String} : JobsOnly m (m.cancelJob w id msg).1 := by
  unfold Manager.cancelJob
  split
  · exact refl
  · exact ⟨rfl, rfl, rfl, rfl, rfl⟩

theorem completeJob {kinds : JobKind → Bool} (h : m.completeJob w name kinds = some out) :
    JobsOnly m out.1 := by
  rcases completeJob_cases h with ⟨-, rfl⟩ | ⟨_, _, -, -, ⟨-, rfl⟩ | ⟨-, rfl⟩⟩
  · exact refl
  · exact finishJob
  · exact refl

theorem tryAdvanceJob : JobsOnly m (m.tryAdvanceJob w id).2.1 := by
  unfold Manager.tryAdvanceJob
  split
  · exact refl
  · split
    · split
      · exact refl
      · split
        · exact finishJobFailed
        · split <;> exact refl
    · split <;> exact refl
    · exact refl

theorem modifyJob {f : Job → Job} : JobsOnly m (m.modifyJob id f) := ⟨rfl, rfl, rfl, rfl, rfl⟩

theorem releaseWait : JobsOnly m (m.releaseWait w id job name).1 := by
  unfold Manager.releaseWait
  dsimp only
  split
  · exact modifyJob
  · exact modifyJob.trans tryAdvanceJob

theorem jobCompleted {ok : Bool} : JobsOnly m (m.jobCompleted w id name ok).1 := by
  unfold Manager.jobCompleted
  split
  · exact refl
  · split
    · exact modifyJob
    · exact releaseWait

theorem pokeFailedJob : JobsOnly m (m.pokeFailedJob w id name).1 := by
  unfold Manager.pokeFailedJob
  split
  · exact refl
  · split
    · exact modifyJob.trans finishJobFailed
    · exact releaseWait

theorem newJob {mode : JobMode} {next : Option Name} :
    JobsOnly m (m.newJob kind name mode next).2 := ⟨rfl, rfl, rfl, rfl, rfl⟩

theorem enqueueStop {mode : JobMode} {next : Option Name} :
    JobsOnly m (m.enqueueStopJobAfterMode w name next mode).1 := newJob

theorem opens {needs ds : List Name} {waiting : List WaitEntry}
    (h : Opens w m id name needs waiting ds out) : JobsOnly m out.1 := by
  cases h with
  | finish | missing => exact modifyJob
  | skip | pending | new => exact refl

theorem dropJob : JobsOnly m (m.dropJob name) := by
  unfold Manager.dropJob
  split
  · exact refl
  · exact ⟨rfl, rfl, rfl, rfl, rfl⟩

theorem dropStartJob : JobsOnly m (m.dropStartJob name) := by
  unfold Manager.dropStartJob
  split
  · exact refl
  · split
    · exact ⟨rfl, rfl, rfl, rfl, rfl⟩
    · exact refl

theorem startIgnoreDependencies : JobsOnly m (m.startIgnoreDependencies name).2.1 := by
  unfold Manager.startIgnoreDependencies
  split
  · exact refl
  · split
    · exact refl
    · exact dropJob.trans newJob

theorem stopWithMode {mode : JobMode} : JobsOnly m (m.stopWithMode w name mode).2.1 := by
  unfold Manager.stopWithMode
  split
  · exact refl
  · split
    · exact refl
    · split
      · exact enqueueStop (w := w)
      · split
        · exact cancelJob
        · split
          · exact modifyJob
          · exact refl

theorem rests (h : JobsOnly m m') : Rests c m m' where
  kept n u hu := ⟨u, by rw [h.units, hu], rfl⟩
  added n u hn hu := by rw [h.units, hn] at hu; cases hu
  pidUnit := h.pidUnit
  children := by rw [h.kernel]
  signals := .of_eq h.kernel
  wheel := by rw [h.wheel]; exact .refl
  timers _ ha := .inl (by rwa [h.wheel] at ha)
  armed _ _ _ _ _ _ _ ha := by rwa [h.wheel]
  elapse _ := by rw [h.wheel]; exact .refl
  shuttingDown := h.shuttingDown

end JobsOnly

namespace Rests

theorem refl : Rests c m m := JobsOnly.refl.rests

theorem trans (h : Rests c m m') (h' : Rests c m' m'') : Rests c m m'' where
  kept n u hu := by
    obtain ⟨u', hu', he⟩ := h.kept n u hu
    obtain ⟨u'', hu'', he'⟩ := h'.kept n u' hu'
    exact ⟨u'', hu'', he'.trans he⟩
  added n u'' hn hu := by
    cases hn' : m'.units.get n with
    | none => exact h'.added n u'' hn' hu
    | some u' =>
      obtain ⟨v, hv, he⟩ := h'.kept n u' hn'
      rw [hu] at hv
      cases hv
      have hf := h.added n u' hn hn'
      have heq {α : Type} {f : Unit → α} (h : ∀ x, f x.bare = f x) : f u'' = f u' := Unit.of_bare he h
      refine ⟨?_, ?_, ?_, ?_, ?_, ?_⟩
      · rw [heq (f := Unit.active) fun _ ↦ rfl, heq (f := Unit.kind) fun _ ↦ rfl]
        exact hf.active
      · exact (heq fun _ ↦ rfl).trans hf.sub
      · exact (heq fun _ ↦ rfl).trans hf.mainPid
      · exact (heq fun _ ↦ rfl).trans hf.groupPid
      · exact (heq fun _ ↦ rfl).trans hf.controlPid
      · exact (heq fun _ ↦ rfl).trans hf.controlCommand
  pidUnit := h'.pidUnit.trans h.pidUnit
  children := h'.children.trans h.children
  signals := h.signals.trans h'.signals
  wheel := h.wheel.trans h'.wheel
  timers hk ha := by
    rcases h'.timers hk ha with ha | hs
    · rcases h.timers hk ha with ha | hs
      · exact .inl ha
      · obtain ⟨u, hu⟩ := Option.isSome_iff_exists.mp hs
        obtain ⟨u', hu', -⟩ := h'.kept _ u hu
        exact .inr (by rw [hu']; rfl)
    · exact .inr hs
  armed hw name u kind hu hk hc ha := by
    obtain ⟨u', hu', he⟩ := h.kept name u hu
    have hkind : u'.kind = u.kind := Unit.of_bare he fun _ ↦ rfl
    exact h'.armed (h.wheel.wf hw) hu' (by rwa [hkind]) hc (h.armed hw hu hk hc ha)
  elapse hc := (h.elapse hc).trans (h'.elapse hc)
  shuttingDown := h'.shuttingDown.trans h.shuttingDown

theorem adds (h : Adds m m') : Rests c m m' where
  kept n u hu := ⟨u, h.units.kept n u hu, rfl⟩
  added n u hn hu := h.units.added n u hn hu
  pidUnit := h.pidUnit
  children := by rw [h.kernel]
  signals := .of_eq h.kernel
  wheel := by rw [h.wheel]; exact .refl
  timers _ ha := .inl (by rwa [h.wheel] at ha)
  armed _ _ _ _ _ _ _ ha := by rwa [h.wheel]
  elapse _ := by rw [h.wheel]; exact .refl
  shuttingDown := h.shuttingDown

theorem keepsUnit {f : Unit → Unit} (hf : ∀ u, (f u).bare = u.bare) :
    Rests c m (m.modifyUnit name f) where
  kept n u hu := by
    rw [Manager.modifyUnit, Table.get_modify, hu]
    split
    · exact ⟨f u, rfl, hf u⟩
    · exact ⟨u, rfl, rfl⟩
  added n u hn hu := by
    rw [Manager.modifyUnit, Table.get_modify, hn] at hu
    split at hu <;> cases hu
  pidUnit := rfl
  children := rfl
  signals := .refl
  wheel := .refl
  timers _ ha := .inl ha
  armed _ _ _ _ _ _ _ ha := ha
  elapse _ := .refl
  shuttingDown := rfl

theorem setResult {r : UnitResult} : Rests c m (m.setResult name r) := keepsUnit fun _ ↦ rfl

theorem expands (h : Expands w m id name out) : Rests c m out.1 := by
  cases h with
  | missing | opens => exact JobsOnly.modifyJob.rests
  | asserted => exact setResult
  | skipped => exact JobsOnly.finishJob.rests
  | requisite => exact (JobsOnly.modifyJob.trans .modifyJob).rests

theorem enqueueStartJob {mode : JobMode} (h : m.enqueueStartJobMode w name mode = some out) :
    Rests c m out.1 :=
  JobsOnly.newJob.rests.trans (expands (expandStartJob_cases h))

theorem starts {mode : JobMode} {reply : Manager.StartReply} (h : Starts w m name mode reply out) :
    Rests c m out.1 := by
  cases h with
  | unloadable => exact refl
  | shutdown hl | active hl | pending hl | irreversible e hl => exact adds (ensureUnitLoaded_adds hl)
  | cancels msg hl => exact (adds (ensureUnitLoaded_adds hl)).trans JobsOnly.cancelJob.rests
  | enqueues hl _ _ _ ho =>
    have hr : Rests c _ _ := enqueueStartJob ho
    exact (adds (ensureUnitLoaded_adds hl)).trans hr

theorem restart {reply : Manager.Reply} (h : m.restart w name = some (reply, out)) :
    Rests c m out.1 := by
  rcases restart_cases h with ⟨-, rfl⟩ | ⟨-, rfl, -⟩ | ⟨-, cs, -, rfl⟩ | ⟨-, reply', h, -⟩
  · exact refl
  · exact refl
  · exact (JobsOnly.dropStartJob.trans (.enqueueStop (w := w))).rests
  · exact starts h

theorem of_silent (h : Quiet m m') (hs : Silent m m')
    (ha : m.wheel.Wf → ∀ {name u kind}, m.units.get name = some u → u.kind ≠ .timer →
      c ≠ .rearmTimer name → m.wheel.Armed name kind → m'.wheel.Armed name kind)
    (he : c.rearms = false → m.wheel.NoElapse m'.wheel) : Rests c m m' where
  kept n u hu := by
    have hn := h.units n
    rw [hu] at hn
    obtain ⟨u', hu', he⟩ := Option.map_eq_some_iff.mp hn
    refine ⟨u', hu', ?_⟩
    have hb : u'.core.bare = u.core.bare := congrArg Unit.bare he
    exact hb
  added n u hn hu := by
    have hn' := h.units n
    rw [hn, hu] at hn'
    cases hn'
  pidUnit := hs.pidUnit
  children := hs.children
  signals := hs.signals
  wheel := hs.wheel.noDelay
  timers hk ha := .inl (hs.wheel.service hk ha)
  armed := ha
  elapse := he
  shuttingDown := h.shuttingDown

theorem checkStartLimit {u : Unit} (hu : m.units.get name = some u) :
    Rests c m (m.modifyUnit name fun _ ↦ (Manager.checkStartLimit w.now u).2) := by
  rw [modifyUnit_const (fun u ↦ (Manager.checkStartLimit w.now u).2) hu]
  refine keepsUnit fun u ↦ ?_
  unfold Manager.checkStartLimit
  dsimp only
  split <;> rfl

theorem of_touches (hu : m'.units = m.units) (h : Touches name m m') : Rests c m m' where
  kept n u hu' := ⟨u, by rw [hu, hu'], rfl⟩
  added n u hn hu' := by rw [hu, hn] at hu'; cases hu'
  pidUnit := h.pidUnit
  children := h.children
  signals := h.signals
  wheel := h.wheel.toNoDelay
  timers {n k} hk ha := by
    rcases h.timers n k hk ha with ha | ⟨rfl, hs⟩
    · exact .inl ha
    · exact .inr (by rwa [hu])
  armed hw _ _ _ _ _ _ ha := h.wheel.armed hw ha
  elapse _ := h.wheel.elapse
  shuttingDown := h.shuttingDown

theorem killTree {sig : Signal} : Rests c m (m.killTree name sig) :=
  of_touches rfl Keeps.killTree.toTouches

end Rests

theorem armed_armCalendar {v : TimerWheel} {n : Name} {k : TimerKind} (c : Option (Nat × Nat))
    (hv : v.Wf) (h : v.Armed n k) : (Manager.armCalendar w name v c).Armed n k := by
  cases c with
  | none => exact h
  | some c => exact h.schedule hv

/-- The timers of the other units stay. -/
theorem armed_rearmTimer {n : Name} {k : TimerKind} (h : m.rearmTimer w name = some m')
    (hw : m.wheel.Wf) (hn : n ≠ name) (ha : m.wheel.Armed n k) : m'.wheel.Armed n k := by
  unfold Manager.rearmTimer at h
  extract_lets wheel at h
  have hwf : wheel.Wf := hw.cancelByUnit
  have ha' : wheel.Armed n k := ha.cancelByUnit hn
  split at h
  · cases h
    exact ha'
  · obtain ⟨u, hu, h⟩ := Option.bind_eq_some_iff.mp h
    split at h
    · cases h
      exact ha'
    · next tc _ =>
      extract_lets st calendar wheel' display at h
      have ha'' : wheel'.Armed n k := armed_armCalendar calendar hwf ha'
      have hwf' : wheel'.Wf := (Silent.armCalendar_noService calendar).wf hwf
      split at h
      next x wheel'' display' hx =>
      cases h
      split at hx
      · split at hx
        · cases hx
          exact ha''.schedule hwf'
        · cases hx
          exact ha''
      · cases hx
        exact ha''

theorem armed_rearmTimers {names : List Name} {n : Name} {k : TimerKind}
    (h : m.rearmTimers w names = some m') (hw : m.wheel.Wf) (hn : n ∉ names)
    (ha : m.wheel.Armed n k) : m'.wheel.Armed n k := by
  induction names generalizing m with
  | nil => cases h; exact ha
  | cons a names ih =>
    obtain ⟨m₁, h₁, h⟩ := Option.bind_eq_some_iff.mp h
    rw [List.mem_cons, not_or] at hn
    exact ih h ((Silent.rearmTimer h₁).wheel.wf hw) hn.2 (armed_rearmTimer h₁ hw hn.1 ha)

theorem Rests.timerDepCheck (h : m.timerDepCheck w = some m') : Rests .timerDepCheck m m' := by
  refine .of_silent (.rearmTimers h) (.rearmTimers h) (fun hw name u kind hu hk _ ha ↦ ?_)
    fun hc ↦ by cases hc
  refine armed_rearmTimers h hw (fun hmem ↦ ?_) ha
  have := (List.mem_filter.mp hmem).2
  simp [hu, hk] at this

/-- The calls by which a process tells that it is up. -/
def Call.announces : Call → Bool
  | .notify .. | .nameAcquired _ => true
  | _ => false

/-- What a call does to the units and their processes. -/
inductive Acts (w : World) (m : Manager) : Call → Out → Prop
  | rests {c : Call} {m' : Manager} {cs : List Call} : Rests c m m' → Acts w m c (m', cs)
  | pops : Acts w m .tick (m.tick w)
  | shuts : m.shuttingDown = false → Acts w m .shutdown (m.shutdown w)
  | loads {m' : Manager} : m.loadAll w = some m' → Acts w m .loadAll (m', [])
  | removes (device : Device) : Acts w m (.udevRemove device) (m.udevRemove device, [])
  | revives {name : Name} {m' : Manager} : Puts name .active m m' → Acts w m (.revive name) (m', [])
  | resets {name : Name} {m' : Manager} : m.activeOf name = some .failed → Puts name .inactive m m' →
      Acts w m (.resetFailed name) (m', [])
  | begins {id : JobId} {job : Job} {m' : Manager} {out : Out} : m.jobs.get id = some job →
      job.failed = false → job.waiting = [] → job.started = false → (m.units.get job.unit).isSome →
      Rests (.maybeStartJob id) m m' → m'.doStart w job.unit = some out →
      Acts w m (.maybeStartJob id) out
  | stops {id : JobId} {job : Job} {m' : Manager} {out : Out} : m.jobs.get id = some job →
      m.unitOperational job.unit → job.started = false → JobsOnly m m' →
      m'.doStop w job.unit = some out → Acts w m (.maybeStopJob id) out
  | reloads {name : Name} {out : Out} : m.reload w name = some out → Acts w m (.reload name) out
  | runs {c : Call} {name : Name} {m' : Manager} {out : Out} : c.announces → Rests c m m' →
      m'.activeOf name = some .activating →
      (m'.setActive w name .active .running .success).completeStartJob w name = some out →
      Acts w m c out
  | fails {name : Name} {msg : String} {r : UnitResult} {m' : Manager} {cs : List Call} :
      (m.units.get name).isSome → JobsOnly (m.setActive w name .failed .failed r) m' →
      Acts w m (.failUnit name msg) (m', cs)
  | restarts {name : Name} {u : Unit} {out : Out} : m.units.get name = some u →
      u.sub = .autoRestart → m.doStart w name = some out →
      Acts w m (.fireTimer name .restartDelay) (out.andThen [.processJobs])
  | expires {name : Name} {out : Out} : m.activeOf name = some .deactivating →
      (m.killTreeKill name).finalizeStop w name = some out →
      Acts w m (.fireTimer name .stopTimeout) out
  | exits {pid : Pid} {exit : ChildExit} {out : Out} : m.processExit w pid exit = some out →
      Acts w m (.processExit pid exit) out
  | mainExits {name : Name} {exit : ChildExit} {out : Out} : m.mainExit w name exit = some out →
      Acts w m (.mainExit name exit) out

theorem maybeStartJob_acts (h : m.maybeStartJob w id = some out) : Acts w m (.maybeStartJob id) out := by
  obtain ⟨job, hj, h⟩ := Option.bind_eq_some_iff.mp h
  split at h
  · cases h
    exact .rests JobsOnly.finishJobFailed.rests
  · next hf =>
    split at h
    · cases h
      exact .rests .refl
    · next hw =>
      obtain ⟨u, hu, h⟩ := Option.bind_eq_some_iff.mp h
      extract_lets m₁ limit m₂ m₃ at h
      have h₂ : Rests (.maybeStartJob id) m m₂ :=
        JobsOnly.modifyJob.rests.trans (Rests.checkStartLimit (m := m₁) hu)
      split at h
      · cases h
        exact .rests ((h₂.trans .setResult).trans (JobsOnly.modifyJob.trans .finishJobFailed).rests)
      · have hw : job.waiting = [] ∧ job.started = false := by simpa using hw
        exact .begins hj (eq_false_of_ne_true hf) hw.1 hw.2 (by rw [hu]; rfl) h₂ h

theorem failUnit_acts {msg : String} (h : m.failUnit w name msg = some out) :
    Acts w m (.failUnit name msg) out := by
  obtain ⟨u, hu, h⟩ := Option.bind_eq_some_iff.mp h
  have hs : (m.units.get name).isSome := by rw [hu]; rfl
  extract_lets m₁ at h
  split at h
  · cases h
    exact .fails hs .refl
  · obtain ⟨job, hj, h⟩ := Option.bind_eq_some_iff.mp h
    split at h
    · cases h
      exact .fails hs (JobsOnly.modifyJob.trans .finishJobFailed)
    · cases h
      exact .fails hs .refl

theorem nowRunning_acts (hc : c.announces) (hr : Rests c m m')
    (h : m'.nowRunning w name = some out) : Acts w m c out := by
  unfold Manager.nowRunning at h
  split at h
  · next ha =>
    obtain ⟨u, hu, ha⟩ := (Option.any_eq_true ..).mp ha
    exact .runs hc hr (by rw [Manager.activeOf, hu, Option.map_some, of_decide_eq_true ha]) h
  · cases h
    exact .rests hr

theorem fireTimer_acts {kind : TimerKind} (h : m.fireTimer w name kind = some out) :
    Acts w m (.fireTimer name kind) out := by
  unfold Manager.fireTimer at h
  split at h
  · unfold Manager.fireServiceTimer at h
    split at h
    · cases h
      exact .rests .refl
    · next u hu =>
      split at h
      · split at h
        · next hs =>
          obtain ⟨r, hr, rfl⟩ := Option.map_eq_some_iff.mp h
          exact .restarts hu hs hr
        · cases h
          exact .rests .refl
      · split at h
        · cases h
          exact .rests (Rests.setResult.trans .killTree)
        · cases h
          exact .rests .refl
      · split at h
        · next ha => exact .expires (by rw [Manager.activeOf, hu, Option.map_some, ha]) h
        · cases h
          exact .rests .refl
      · cases h
        exact .rests .refl
      · cases h
        exact .rests .refl
  · cases h
    exact .rests (.keepsUnit fun _ ↦ rfl)

theorem exec_acts (h : exec w c m = some out) : Acts w m c out := by
  cases c with
  | start name mode =>
    obtain ⟨r, hr, rfl⟩ := Option.map_eq_some_iff.mp h
    exact .rests (.starts (startWithMode_cases hr))
  | startIgnoreDependencies name => cases h; exact .rests JobsOnly.startIgnoreDependencies.rests
  | stop name mode => cases h; exact .rests JobsOnly.stopWithMode.rests
  | enqueueStop name mode => cases h; exact .rests (JobsOnly.enqueueStop (w := w)).rests
  | revive name =>
    obtain ⟨m', hp, rfl⟩ := revive_puts h
    exact .revives hp
  | restart name =>
    obtain ⟨r, hr, rfl⟩ := Option.map_eq_some_iff.mp h
    exact .rests (.restart hr)
  | restartActivated name | tryRestart name =>
    change (if _ then _ else _) = _ at h
    split at h
    · obtain ⟨r, hr, rfl⟩ := Option.map_eq_some_iff.mp h
      exact .rests (.restart hr)
    · cases h
      exact .rests .refl
  | restartOrStart name =>
    change (if _ then _ else _) = _ at h
    split at h
    · obtain ⟨r, hr, rfl⟩ := Option.map_eq_some_iff.mp h
      exact .rests (.restart hr)
    · obtain ⟨r, hr, rfl⟩ := Option.map_eq_some_iff.mp h
      exact .rests (.starts (startWithMode_cases hr))
  | reload name => exact .reloads h
  | kill name sig =>
    obtain ⟨u, -, h⟩ := Option.bind_eq_some_iff.mp h
    cases h
    refine .rests ?_
    split
    · exact .killTree
    · exact .refl
  | resetFailed name =>
    cases h
    rcases (resetFailed_cases : m.resetFailed name = m ∨ _) with he | ⟨ha, hp⟩
    · rw [he]
      exact .rests .refl
    · exact .resets ha hp
  | shutdown =>
    cases h
    cases hs : m.shuttingDown with
    | false => exact .shuts hs
    | true =>
      rw [Manager.shutdown, if_pos hs]
      exact .rests .refl
  | loadAll =>
    obtain ⟨m', hm', rfl⟩ := Option.map_eq_some_iff.mp h
    exact .loads hm'
  | loadUnit name => cases h; exact .rests (.adds busLoadUnit_adds)
  | udevRegister device => cases h; exact .rests (.adds udevRegister_adds)
  | udevRemove device => cases h; exact .removes device
  | tick => cases h; exact .pops
  | pollPaths =>
    cases h
    refine .rests (.of_silent .pollPaths ?_ (fun _ _ _ _ _ _ _ ha ↦ ha) fun _ ↦ .refl)
    exact .of_wheel rfl rfl .refl
  | notify ready pid =>
    change m.handleNotify w ready pid = some out at h
    unfold Manager.handleNotify at h
    split at h
    · cases h
      exact .rests .refl
    · split at h
      · exact nowRunning_acts rfl .refl h
      · cases h
        exact .rests .refl
  | nameAcquired busName =>
    change m.nameAcquired w busName = some out at h
    unfold Manager.nameAcquired at h
    split at h
    · cases h
      exact .rests .refl
    · refine nowRunning_acts rfl ?_ h
      exact JobsOnly.rests ⟨rfl, rfl, rfl, rfl, rfl⟩
  | enqueueStartJob name => exact .rests (.enqueueStartJob h)
  | stopConflict name =>
    rcases stopConflict_cases h with rfl | ⟨-, rfl, -⟩
    · exact .rests .refl
    · exact .rests (JobsOnly.enqueueStop (w := w)).rests
  | stopDependent name =>
    cases h
    rcases stopDependent_cases name with he | ⟨-, -, he⟩
    · rw [he]
      exact .rests .refl
    · rw [he]
      exact .rests (JobsOnly.enqueueStop (w := w)).rests
  | expandOpen id name needs waiting ds => exact .rests (JobsOnly.opens (expandOpen_cases h)).rests
  | maybeStartJob id => exact maybeStartJob_acts h
  | maybeStopJob id =>
    obtain ⟨job, hj, ⟨-, rfl⟩ | ⟨-, -, rfl⟩ | ⟨ho, hs, h⟩⟩ := maybeStopJob_cases h
    · exact .rests JobsOnly.finishJob.rests
    · exact .rests .refl
    · have hm : JobsOnly m
          ({ m with unitJob := m.unitJob.insert job.unit id }.markStarted id) :=
        ⟨rfl, rfl, rfl, rfl, rfl⟩
      exact .stops hj ho hs hm h
  | processPass ids changed =>
    cases h
    unfold Manager.processPass
    split
    · exact .rests .refl
    · exact .rests JobsOnly.tryAdvanceJob.rests
  | jobCompleted id unit ok => cases h; exact .rests JobsOnly.jobCompleted.rests
  | pokeFailedJob id name => cases h; exact .rests JobsOnly.pokeFailedJob.rests
  | failUnit name msg => exact failUnit_acts h
  | armStartTimeout name =>
    obtain ⟨u, hu, h⟩ := Option.map_eq_some_iff.mp h
    cases h
    exact .rests (.of_touches rfl (Keeps.armStartTimeout (by rw [hu]; rfl)).toTouches)
  | timerDepCheck =>
    obtain ⟨m', hm', rfl⟩ := Option.map_eq_some_iff.mp h
    exact .rests (.timerDepCheck hm')
  | fireTimer name kind => exact fireTimer_acts h
  | rearmTimer name =>
    obtain ⟨m', hm', rfl⟩ := Option.map_eq_some_iff.mp h
    refine .rests (.of_silent (.rearmTimer hm') (.rearmTimer hm')
      (fun hw n u kind _ _ hc ha ↦ ?_) fun hc ↦ by cases hc)
    exact armed_rearmTimer hm' hw (fun he ↦ hc (by rw [he])) ha
  | processExit pid exit => exact .exits h
  | mainExit name exit => exact .mainExits h
  | isolate name | reap | socketReady fd | processJobs => cases h; exact .rests .refl
  | fireOnFailure name =>
    obtain ⟨u, -, h⟩ := Option.bind_eq_some_iff.mp h
    cases h
    exact .rests .refl

/-- The unit procedure ends with changes to the jobs only. -/
theorem Ends.locals (h : Ends w name kind m out) :
    ∃ m', Local name m m' ∧ JobsOnly m' out.1 := by
  induction h with
  | waits hk => exact ⟨_, hk.toLocal, .refl⟩
  | fails msg rest hk _ => exact ⟨_, hk.toLocal, .refl⟩
  | completes hp _ ho _ => exact ⟨_, hp.toLocal, .completeJob ho⟩
  | stops hp ho => exact ⟨_, hp.toLocal, .completeJob ho⟩
  | spawns idx main hk _ _ _ _ _ _ ih =>
    obtain ⟨m', hl, hj⟩ := ih
    exact ⟨m', (hk.toLocal.trans .recordSpawn).trans hl, hj⟩

theorem ActiveExit.locals (h : ActiveExit w name m out) :
    ∃ m', Local name m m' ∧ JobsOnly m' out.1 := by
  cases h with
  | limit hp | failed hp => exact ⟨_, hp.toLocal, .refl⟩
  | restart delay hk _ => exact ⟨_, hk.toLocal.trans scheduleRestart_local, .refl⟩
  | ended hp _ ho =>
    have hj := JobsOnly.completeJob ho
    exact ⟨_, hp.toLocal, hj⟩

theorem mainExit_locals {exit : ChildExit} (h : m.mainExit w name exit = some out) :
    ∃ m', Local name m m' ∧ JobsOnly m' out.1 := by
  have hf : Local name m (m.forgetMain name) := Touches.forgetMain.toLocal
  obtain ⟨u, -, h⟩ := mainExit_ends h
  cases h with
  | stopped _ he =>
    obtain ⟨m', hl, hj⟩ := he.locals
    exact ⟨m', hf.trans hl, hj⟩
  | vanished _ _ hp => exact ⟨_, hf.trans hp.toLocal, .refl⟩
  | fails _ hk => exact ⟨_, hf.trans hk.toLocal, .refl⟩
  | active _ _ he =>
    obtain ⟨m', hl, hj⟩ := he.locals
    exact ⟨m', hf.trans hl, hj⟩

theorem handleControlExit_locals {exit : ChildExit} (h : m.handleControlExit w name exit = some out) :
    ∃ m', Local name m m' ∧ JobsOnly m' out.1 := by
  have hf : Local name m (m.forgetControl name) := Touches.forgetControl.toLocal
  rcases handleControlExit_cases h with ⟨-, he⟩ | ⟨-, m₀, rfl | ⟨pid, rfl⟩, he⟩ | ⟨-, rfl⟩ | rfl
  · obtain ⟨m', hl, hj⟩ := he.locals
    exact ⟨m', hf.trans hl, hj⟩
  · obtain ⟨m', hl, hj⟩ := he.locals
    exact ⟨m', hf.trans hl, hj⟩
  · obtain ⟨m', hl, hj⟩ := he.locals
    exact ⟨m', (hf.trans .adoptPid).trans hl, hj⟩
  · exact ⟨_, hf, .refl⟩
  · exact ⟨_, hf, .refl⟩

theorem doStart_locals (h : m.doStart w name = some out) :
    ∃ m', Local name m m' ∧ JobsOnly m' out.1 := by
  obtain ⟨m₁, hl, -, he⟩ := (doStart_begins h).ends
  obtain ⟨m', hl', hj⟩ := he.locals
  exact ⟨m', hl.toLocal.trans hl', hj⟩

theorem doStop_locals (h : m.doStop w name = some out) :
    ∃ m', Local name m m' ∧ JobsOnly m' out.1 := by
  obtain ⟨m₁, hp, he⟩ := doStop_begins h
  obtain ⟨m', hl', hj⟩ := he.locals
  exact ⟨m', hp.toLocal.trans hl', hj⟩

theorem Local.setupOf (h : Local name m m') (n : Name) : m'.setupOf n = m.setupOf n := by
  by_cases hn : n = name
  · rw [hn, h.setup]
  · rw [Manager.setupOf, h.others n hn, Manager.setupOf]

theorem JobsOnly.setupOf (h : JobsOnly m m') (n : Name) : m'.setupOf n = m.setupOf n := by
  rw [Manager.setupOf, h.units, Manager.setupOf]

theorem JobsOnly.activeOf (h : JobsOnly m m') (n : Name) : m'.activeOf n = m.activeOf n := by
  rw [Manager.activeOf, h.units, Manager.activeOf]

theorem Rests.setupOf (h : Rests c m m') {n : Name} (hn : (m.units.get n).isSome) :
    m'.setupOf n = m.setupOf n := by
  obtain ⟨u, hu⟩ := Option.isSome_iff_exists.mp hn
  obtain ⟨u', hu', he⟩ := h.kept n u hu
  rw [Manager.setupOf, hu', Manager.setupOf, hu]
  have hp : (u'.kind, u'.file) = (u.kind, u.file) := Unit.of_bare he (f := fun u ↦ (u.kind, u.file)) fun _ ↦ rfl
  rw [Option.map_some, hp, Option.map_some]

theorem finalizeStop_activeOf (h : m.finalizeStop w name = some out) :
    out.1.activeOf name = some .inactive := by
  obtain ⟨m', hp, ho⟩ := finalizeStop_puts h
  have hj := JobsOnly.completeJob ho
  rw [hj.activeOf, hp.active]

theorem failUnit_activeOf {msg : String} (h : m.failUnit w name msg = some out) :
    out.1.activeOf name = some .failed := by
  obtain ⟨m', hp, ⟨jid, job, -, -, -, rfl⟩ | ⟨-, rfl⟩⟩ := failUnit_ends h
  · have hj : JobsOnly m' ((m'.modifyJob jid fun job ↦
        { job with failedMsg := some msg }).finishJobFailed w jid).1 :=
      JobsOnly.modifyJob.trans .finishJobFailed
    exact (hj.activeOf name).trans hp.active
  · exact hp.active

theorem Rests.activeOf (h : Rests c m m') {n : Name} (hn : (m.units.get n).isSome) :
    m'.activeOf n = m.activeOf n := by
  obtain ⟨u, hu⟩ := Option.isSome_iff_exists.mp hn
  obtain ⟨u', hu', he⟩ := h.kept n u hu
  have ha : u'.active = u.active := Unit.of_bare he fun _ ↦ rfl
  rw [Manager.activeOf, hu', Manager.activeOf, hu, Option.map_some, ha, Option.map_some]

theorem setActive_local {s : ActiveState} {sub : SubState} {r : UnitResult}
    (hs : sub ≠ .autoRestart) : Local name m (m.setActive w name s sub r) :=
  .modifyUnit (fun _ ↦ setActive_setup ..) fun _ _ ↦ setActive_restartOk _ _ _ fun h ↦ absurd h hs

/-- Only a reload or the removal of a device takes or changes what a unit is. -/
theorem exec_setup {n : Name} (h : exec w c m = some out) (hl : c ≠ .loadAll)
    (hd : ∀ device, c ≠ .udevRemove device) (hn : (m.units.get n).isSome) :
    out.1.setupOf n = m.setupOf n := by
  have locals {m₀ : Manager} (h₀ : m₀.setupOf n = m.setupOf n)
      (hl : ∃ name m', Local name m₀ m' ∧ JobsOnly m' out.1) : out.1.setupOf n = m.setupOf n := by
    obtain ⟨name, m', hl, hj⟩ := hl
    rw [hj.setupOf, hl.setupOf, h₀]
  cases exec_acts h with
  | rests hr => exact hr.setupOf hn
  | pops => rfl
  | shuts hs =>
    rw [Manager.shutdown, if_neg (by simp [hs])]
    rfl
  | loads => exact absurd rfl hl
  | removes device => exact absurd rfl (hd device)
  | revives hp | resets _ hp => exact hp.toLocal.setupOf n
  | begins _ _ _ _ _ hr ho => exact locals (hr.setupOf hn) ⟨_, doStart_locals ho⟩
  | stops _ _ _ hj ho => exact locals (hj.setupOf n) ⟨_, doStop_locals ho⟩
  | reloads ho => exact locals rfl ⟨_, (reload_ends ho .restart).locals⟩
  | runs _ hr ha ho =>
    have hj := JobsOnly.completeJob ho
    exact locals (hr.setupOf hn) ⟨_, _, setActive_local (by simp), hj⟩
  | fails hu hj => exact locals rfl ⟨_, _, setActive_local (by simp), hj⟩
  | restarts _ _ ho =>
    obtain ⟨m', hl, hj⟩ := doStart_locals ho
    exact locals rfl ⟨_, m', hl, hj⟩
  | expires _ ho => exact locals rfl ⟨_, (Keeps.killTree.ends (finalizeStop_ends ho)).locals⟩
  | exits ho =>
    cases processExit_cases ho with
    | ignored | main => rfl
    | control _ _ _ _ h =>
      exact locals (Quiet.forgetPid.setupOf n) ⟨_, handleControlExit_locals h⟩
  | mainExits ho => exact locals rfl ⟨_, mainExit_locals ho⟩

/-- The calls that may bring a unit into another state, or start or end a process of it. -/
def Call.actsOn (m : Manager) (n : Name) : Call → Prop
  | .revive name | .resetFailed name | .reload name | .failUnit name _ | .mainExit name _ => name = n
  | .fireTimer name kind => name = n ∧ kind.service
  | .maybeStartJob id => ∃ job, m.jobs.get id = some job ∧ job.unit = n
  | .maybeStopJob id => ∃ job, m.jobs.get id = some job ∧ job.unit = n ∧ m.unitOperational n
  | .processExit pid _ => m.pidUnit.get pid = some n
  | .notify .. | .nameAcquired _ => m.activeOf n = some .activating
  | .loadAll | .udevRemove _ => True
  | _ => False

theorem Local.get_eq {n : Name} (hl : Local name m m') (hj : JobsOnly m' m'') (hn : n ≠ name) :
    m''.units.get n = m.units.get n := by
  rw [hj.units, hl.others n hn]

/-- The other calls leave a unit as it is. -/
theorem exec_elsewhere {n : Name} {u : Unit} (h : exec w c m = some out)
    (hu : m.units.get n = some u) (hc : ¬ c.actsOn m n) :
    ∃ u', out.1.units.get n = some u' ∧ u'.bare = u.bare := by
  have same {m₁ : Manager} (hs : m₁.units.get n = m.units.get n) :
      ∃ u', m₁.units.get n = some u' ∧ u'.bare = u.bare := ⟨u, hs.trans hu, rfl⟩
  have locals {m₁ m₂ : Manager} {name : Name} (hs : ∃ u', m₁.units.get n = some u' ∧ u'.bare = u.bare)
      (hl : ∃ m', Local name m₁ m' ∧ JobsOnly m' m₂) (hn : n ≠ name) :
      ∃ u', m₂.units.get n = some u' ∧ u'.bare = u.bare := by
    obtain ⟨m', hl, hj⟩ := hl
    rwa [hl.get_eq hj hn]
  cases exec_acts h with
  | rests hr => exact hr.kept n u hu
  | pops => exact same rfl
  | shuts hs =>
    rw [Manager.shutdown, if_neg (by simp [hs])]
    exact same rfl
  | loads | removes => exact absurd trivial hc
  | revives hp | resets _ hp => exact same (hp.others n fun he ↦ hc he.symm)
  | begins hj _ _ _ _ hr ho =>
    exact locals (hr.kept n u hu) (doStart_locals ho) fun he ↦ hc ⟨_, hj, he.symm⟩
  | stops hj hop _ hm ho =>
    refine locals (same (by rw [hm.units])) (doStop_locals ho) fun he ↦ hc ⟨_, hj, he.symm, ?_⟩
    rwa [he]
  | reloads ho => exact locals (same rfl) (reload_ends ho .start).locals fun he ↦ hc he.symm
  | runs ha hr hn ho =>
    have hj := JobsOnly.completeJob ho
    refine locals (hr.kept n u hu) ⟨_, setActive_local (by simp), hj⟩ fun he ↦ hc ?_
    have hact : m.activeOf n = some .activating := by
      rw [he] at hu ⊢
      rwa [← hr.activeOf (by rw [hu]; rfl)]
    cases c <;> first | exact hact | cases ha
  | fails hu hj =>
    exact locals (same rfl) ⟨_, setActive_local (by simp), hj⟩ fun he ↦ hc he.symm
  | restarts hu _ ho =>
    obtain ⟨m', hl, hj⟩ := doStart_locals ho
    exact locals (same rfl) ⟨m', hl, hj⟩ fun he ↦ hc ⟨he.symm, rfl⟩
  | expires ha ho =>
    refine locals (same rfl) (Keeps.killTree.ends (finalizeStop_ends ho)).locals fun he ↦ hc ?_
    exact ⟨he.symm, rfl⟩
  | exits ho =>
    cases processExit_cases ho with
    | ignored | main => exact same rfl
    | control howner _ _ _ h =>
      obtain ⟨m', hl, hj⟩ := handleControlExit_locals h
      refine ⟨u, (hl.get_eq hj fun he ↦ hc ?_).trans hu, rfl⟩
      rw [he]
      exact howner
  | mainExits ho => exact locals (same rfl) (mainExit_locals ho) fun he ↦ hc he.symm

end Rystemd
